import Bookbinder.Press
import Bookbinder.Slug
/-!
# Stable addresses

Every topic of a book gets an address from its title that no other topic has, and the store keeps it.  An address is
the topic's slug with the least number that makes it free, up to a limit.  Finding and keeping the addresses is tried
again if the store fails; topics are only changed once the store has kept them all.
-/
namespace Bookbinder
namespace Address

variable {σ : Type}

/-- The property that gives a topic an address. -/
def property (address : String) : Property :=
  ⟨PropertyId.address, address, true⟩

/-- A topic with one address instead of all that it had. -/
def give (address : String) (t : Topic) : Topic :=
  { t with properties := (t.properties.filter fun p => p.id != PropertyId.address) ++ [property address] }

/-- What a topic's address begins with. -/
def base (t : Topic) : String :=
  let slug := Slug.ofTitle t.title
  if slug.isEmpty then "TopicID" ++ toString t.id else slug

/-- The addresses that are tried: the base by itself, and then with a number. -/
def candidate (base : String) : Nat → String
  | 0 => base
  | n => base ++ toString n

/-- Whether an address is used in this book or, by another topic, in the store. -/
def isTaken (store : TopicStore σ) (used : List String) (id : Int) (address : String) : Press σ Bool :=
  if used.contains address then return true
  else return (← Press.ask (store.withProperty PropertyId.address address)).any fun i => i != id

/-- The first free address from a number on.  After so many more numbers the last one is taken, free or not. -/
def probe (store : TopicStore σ) (used : List String) (t : Topic) (number : Nat) : Nat → Press σ String
  | 0 => do
    let _ ← isTaken store used t.id (candidate (base t) number)
    return candidate (base t) number
  | more + 1 => do
    if ← isTaken store used t.id (candidate (base t) number) then probe store used t (number + 1) more
    else return candidate (base t) number

/-- A topic with the address it is to have. -/
abbrev Grant := Topic × String

/-- Addresses for the topics that lack one, in their order, given those in use. -/
def find (store : TopicStore σ) (attempts : Nat) : List Topic → List String → Press σ (List Grant)
  | [], _ => return []
  | t :: ts, used => do
    Press.check
    if t.address?.isSome then find store attempts ts used
    else
      let address ← probe store used t 0 attempts
      return (t, address) :: (← find store attempts ts (address :: used))

/-- What the store is to keep of a grant.  Topics of negative ids are unknown to it. -/
def update? : Grant → Option PropertyUpdate
  | (t, address) =>
    if 0 ≤ t.id then some ⟨t.id, property address, t.properties.filter fun p => p.id == PropertyId.address⟩ else none

/-- The address granted to a topic; of several, the last. -/
def granted? (grants : List Grant) (id : Int) : Option String :=
  (grants.reverse.find? fun g => g.1.id == id).map (·.2)

/-- A topic with the address granted to an id, if one was. -/
def giveGranted (grants : List Grant) (id : Int) (t : Topic) : Topic :=
  match granted? grants id with
  | some address => give address t
  | none => t

/-- A topic, and the copies that it holds, with the addresses granted. -/
def apply (grants : List Grant) (t : Topic) : Topic :=
  let copy := fun (c : Topic) => giveGranted grants c.sourceId c
  let t := giveGranted grants t.id t
  { t with outgoing := t.outgoing.map copy, incoming := t.incoming.map copy }

/-- One attempt: addresses are found and kept, and then given to the topics. -/
def attempt (store : TopicStore σ) (attempts : Nat) (topics : List Topic) : Press σ (List Topic) := do
  let grants ← find store attempts topics (topics.filterMap Topic.address?)
  let updates := grants.filterMap update?
  if !updates.isEmpty then Press.ask (store.update updates)
  return topics.map (apply grants)

/-- The topics with addresses, if one of so many attempts is spared by the store. -/
def assign (store : TopicStore σ) (attempts : Nat) (topics : List Topic) : Nat → Press σ (Option (List Topic))
  | 0 => return none
  | retries + 1 => do
    Press.check
    match ← Press.unlessStoreFails (attempt store attempts topics) with
    | some topics => return some topics
    | none => assign store attempts topics retries

end Address
end Bookbinder
