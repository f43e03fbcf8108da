import OverlaySync.Host.Basic

/-! # Checkouts

A checkout brings remote sources to disk. What it is asked for is a `Request`: a whole tree, or some
files of one. -/

namespace OverlaySync

/-- What a checkout can be asked for. -/
inductive Request where
  /-- All of `url` at `dest`, at a revision if one is given. -/
  | tree (url : String) (dest : Path) (revision : Option String)
  /-- Only some files of `url`, at `dest`. -/
  | files (url : String) (dest : Path) (files : List String)
  deriving DecidableEq, Repr

/-- Where a request brings the sources to. -/
def Request.dest : Request → Path
  | tree _ dest _ => dest
  | files _ dest _ => dest

/-- Where a request brings the sources from. -/
def Request.url : Request → String
  | tree url _ _ => url
  | files url _ _ => url

/-- What brings remote sources to disk. -/
structure Checkout (m : Type → Type) where
  /-- The name that messages use. -/
  tool : String
  /-- Do what is asked for. -/
  handle : Request → ExceptT Failure m Unit

end OverlaySync
