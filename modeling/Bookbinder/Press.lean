import Bookbinder.Settings
import Bookbinder.Store
import Bookbinder.Template.Pages
/-!
# Running a build

A build runs against a store and can be cancelled.  `Press` is a run that ends in a result or an error and leaves the
store as its calls left it.  Cancellation is only noticed where a run checks for it.
-/
namespace Bookbinder

/-- Why there is no book. -/
inductive BuildError where
  | cancelled
  | noContent (title : String)
  | store (cause : StoreError)
  | template (cause : Template.Fault)
  | settings (cause : SettingsError)
deriving DecidableEq, Repr

namespace BuildError

/-- The error's wording; a template's fault is worded by what renders it. -/
def message? : BuildError → Option String
  | cancelled => some "build cancelled"
  | noContent title => some ("content specification has no content: Content spec \"" ++ title
      ++ "\" does not reference any topics")
  | store cause => some ("topic store error: " ++ cause.message)
  | template _ => none
  | settings cause => cause.message?.map ("invalid configuration: " ++ ·)

end BuildError

/-- The store that a build runs against, and whether the build is cancelled. -/
structure Session (σ : Type) where
  store : σ
  cancelled : Bool := false

/-- What renders the pages of a book by their files' names; it may keep a state of its own. -/
abbrev Renderer (σ : Type) := String → Template.Context → σ → Except Template.Fault String × σ

/-- The pages of the library, rendered without any state. -/
def Renderer.pages {σ : Type} : Renderer σ :=
  fun file c s => (Template.render file c, s)

/-- A run that ends in a result or an error. -/
abbrev Press (σ : Type) := ExceptT BuildError (StateM (Session σ))

namespace Press

variable {σ α : Type}

/-- The run ends here if it has been cancelled. -/
def check : Press σ Unit := do
  if (← get).cancelled then throw .cancelled

/-- A call of the store.  Cancellation during the call is kept in mind, whatever its result. -/
def ask (call : StoreCall σ α) : Press σ α := do
  let s ← get
  let reply := call s.store
  set (⟨reply.state, s.cancelled || reply.cancelled⟩ : Session σ)
  match reply.result with
  | .ok a => return a
  | .error e => throw (.store e)

/-- A page rendered. -/
def render (r : Renderer σ) (page : Template.PageName) (c : Template.Context) : Press σ String := do
  let s ← get
  let (result, store) := r page.file c s.store
  set (⟨store, s.cancelled⟩ : Session σ)
  match result with
  | .ok text => return text
  | .error e => throw (.template e)

/-- A run with nothing in place of its result if the store fails. -/
def unlessStoreFails (p : Press σ α) : Press σ (Option α) :=
  tryCatch (some <$> p) fun
    | .store _ => return none
    | e => throw e

end Press
end Bookbinder
