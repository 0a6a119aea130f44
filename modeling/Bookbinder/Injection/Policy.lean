import Bookbinder.Topic
/-!
# Injection policy

Whether markers are honoured in a book, and in which topics.  The caller's wish comes before the outline's; in strict
mode only topics with a tag of a listed type are processed.
-/
namespace Bookbinder

/-- How a party wants injection handled. -/
inductive InjectionMode where
  /-- No preference. -/
  | none
  | off
  | on
  /-- Only topics of listed types. -/
  | strict
deriving DecidableEq, Repr, Inhabited

def InjectionMode.name : InjectionMode → String
  | none => "none" | off => "off" | on => "on" | strict => "strict"

/-- The same letters, ASCII case aside. -/
def sameLetters (a b : String) : Bool :=
  a.toList.map Char.toLower == b.toList.map Char.toLower

/-- The policy of one build. -/
structure InjectionPolicy where
  client : InjectionMode
  outline : InjectionMode
  /-- Names of the tags that strict mode asks for. -/
  types : List String
deriving DecidableEq, Repr, Inhabited

namespace InjectionPolicy

/-- What a caller asks for by a switch and a list of types: off wins, then a list, then on. -/
def clientMode (switch : Option Bool) (types : List String) : InjectionMode :=
  match switch with
  | some false => .off
  | _ => if !types.isEmpty then .strict else if switch.isSome then .on else .none

/-- A list of types with those of another list that it lacks. -/
def mergeTypes (types more : List String) : List String :=
  more.foldl (fun ts t => if ts.any (sameLetters · t) then ts else ts ++ [t]) types

/-- The caller's wishes combined with the outline's. -/
def resolve (switch : Option Bool) (types : List String) (mode : InjectionMode) (more : List String) :
    InjectionPolicy :=
  ⟨clientMode switch types, mode, mergeTypes types more⟩

/-- Whether anything may be injected in the book. -/
def allowed (p : InjectionPolicy) : Bool :=
  match p.client with
  | .off => false
  | .on | .strict => true
  | .none => p.outline != .off

def isStrict (p : InjectionPolicy) : Bool :=
  p.client == .strict || (p.client == .none && p.outline == .strict)

/-- Whether the markers of a topic may be processed. -/
def allowedFor (p : InjectionPolicy) (t : Topic) : Bool :=
  p.allowed && (!p.isStrict || t.tags.any fun tag => p.types.any fun type => sameLetters type tag.name)

end InjectionPolicy
end Bookbinder
