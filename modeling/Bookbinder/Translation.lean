import Bookbinder.Press
/-!
# Complete translations

A translated book needs a translation of every topic it refers to.  What nobody has translated is replaced by a
placeholder in the words of the source, whose relations are translated or placeholders as well.  Each placeholder is
made once.  A placeholder is known before its relations are followed, so that relations in a circle come to an end.
-/
namespace Bookbinder
namespace Translation

variable {σ : Type}

/-- The ids without a translation, in order and without repeats. -/
def missingIds (found : List Topic) (required : List Int) : List Int :=
  required.foldl (fun missing id =>
    if (found.any fun t => t.sourceId == id) || missing.contains id then missing else missing ++ [id]) []

/-- The placeholder for a topic, without relations. -/
def placeholder (locale : String) (source : Topic) : Topic :=
  { source with
    id := -source.id
    title := "[" ++ source.locale ++ "] " ++ source.title
    locale
    translation := some ⟨source.id, source.revision, 100, true⟩
    outgoing := []
    incoming := [] }

/-- The state of completing translations. -/
structure Work where
  /-- What is translated, the later ones of an id in front. -/
  done : List Topic
  /-- Source topics that no placeholder has been made for. -/
  sources : List Topic

namespace Work

def find? (w : Work) (id : Int) : Option Topic :=
  w.done.find? fun t => t.sourceId == id

def add (w : Work) (t : Topic) : Work :=
  { w with done := t :: w.done }

end Work

/-- The source topic of an id taken out of a list, with what is left. -/
def takeSource (id : Int) : List Topic → Option (Topic × List Topic)
  | [] => none
  | t :: ts =>
    if t.id = id then some (t, ts)
    else match takeSource id ts with
      | some (s, rest) => some (s, t :: rest)
      | none => none

theorem length_of_takeSource {id : Int} {ts rest : List Topic} {s : Topic} (h : takeSource id ts = some (s, rest)) :
    rest.length + 1 = ts.length := by
  fun_induction takeSource id ts generalizing rest with
  | case1 => cases h
  | case2 => cases h; rfl
  | case3 t ts _ s' rest' h' ih =>
    simp only [Option.some.injEq, Prod.mk.injEq] at h
    obtain ⟨rfl, rfl⟩ := h
    simp [ih h']
  | case4 => cases h

/-- Work after which no more sources are left than before. -/
abbrev WorkFrom (w : Work) := { w' : Work // w'.sources.length ≤ w.sources.length }

theorem Topic.sizeOf_outgoing (t : Topic) : sizeOf t.outgoing < sizeOf t := by
  cases t; simp only [Topic.mk.sizeOf_spec]; omega

theorem Topic.sizeOf_incoming (t : Topic) : sizeOf t.incoming < sizeOf t := by
  cases t; simp only [Topic.mk.sizeOf_spec]; omega

theorem sizeOf_lt_cons (t : Topic) (ts : List Topic) : sizeOf t + 1 < sizeOf (t :: ts) := by
  cases ts <;> simp only [List.cons.sizeOf_spec, List.nil.sizeOf_spec] <;> omega

theorem sizeOf_tail_lt_cons (t : Topic) (ts : List Topic) : sizeOf ts < sizeOf (t :: ts) := by
  simp only [List.cons.sizeOf_spec]; omega

mutual

/-- The placeholder for a topic with its relations, and the work with all the placeholders that it took. -/
def synthesize (locale : String) (source : Topic) (w : Work) : Topic × WorkFrom w :=
  let p := placeholder locale source
  let (outgoing, ⟨w1, h1⟩) := translateAll locale source.outgoing (w.add p)
  let (incoming, ⟨w2, h2⟩) := translateAll locale source.incoming w1
  let p := { p with outgoing, incoming }
  (p, ⟨w2.add p, Nat.le_trans h2 h1⟩)
termination_by (w.sources.length, sizeOf source)
decreasing_by
  · exact Prod.Lex.right _ (Topic.sizeOf_outgoing source)
  · rcases Nat.lt_or_eq_of_le h1 with h | h
    · exact Prod.Lex.left _ _ h
    · rw [h]; exact Prod.Lex.right _ (Topic.sizeOf_incoming source)

/-- Relations translated one after the other. -/
def translateAll (locale : String) (related : List Topic) (w : Work) : List Topic × WorkFrom w :=
  match related with
  | [] => ([], ⟨w, Nat.le_refl _⟩)
  | t :: ts =>
    let (t', ⟨w1, h1⟩) := translateRelated locale t w
    let (ts', ⟨w2, h2⟩) := translateAll locale ts w1
    (t' :: ts', ⟨w2, Nat.le_trans h2 h1⟩)
termination_by (w.sources.length, sizeOf related)
decreasing_by
  · exact Prod.Lex.right _ (sizeOf_lt_cons t ts)
  · rcases Nat.lt_or_eq_of_le h1 with h | h
    · exact Prod.Lex.left _ _ h
    · rw [h]; exact Prod.Lex.right _ (by simp only [List.cons.sizeOf_spec]; omega)

/-- One relation translated: what is known of its topic, else a placeholder, made from the source topic if there is
one, since that has relations of its own. -/
def translateRelated (locale : String) (t : Topic) (w : Work) : Topic × WorkFrom w :=
  match w.find? t.sourceId with
  | some known => (known.shallow, ⟨w, Nat.le_refl _⟩)
  | none =>
    if t.isTranslated then (t.shallow, ⟨w, Nat.le_refl _⟩)
    else match h : takeSource t.id w.sources with
      | some (source, rest) =>
        have hr := length_of_takeSource h
        let (p, ⟨w1, h1⟩) := synthesize locale source ⟨w.done, rest⟩
        (p.shallow, ⟨w1, Nat.le_trans h1 (Nat.le_of_lt (Nat.lt_of_succ_le (Nat.le_of_eq hr)))⟩)
      | none =>
        let (p, w1) := synthesize locale t w
        (p.shallow, w1)
termination_by (w.sources.length, sizeOf t + 1)
decreasing_by
  · exact Prod.Lex.left _ _ (Nat.lt_of_succ_le (Nat.le_of_eq hr))
  · exact Prod.Lex.right _ (Nat.lt_succ_self _)

end

/-- A placeholder for a source topic of an id, if there is one that none has been made for. -/
def addSource (locale : String) (id : Int) (w : Work) : Work :=
  match takeSource id w.sources with
  | some (source, rest) => (synthesize locale source ⟨w.done, rest⟩).2.val
  | none => w

/-- Topics, of several with one id the last. -/
def lastOfEach (ts : List Topic) : List Topic :=
  ts.foldl (fun ts t => ts.filter (fun u => u.id != t.id) ++ [t]) []

/-- Placeholders for all ids, unless the build is cancelled between two of them. -/
def addSources (locale : String) : List Int → Work → Press σ Work
  | [], w => return w
  | id :: ids, w => do
    Press.check
    addSources locale ids (addSource locale id w)

/-- The translations of all required ids, in order. -/
def collect (w : Work) : List Int → Press σ (List Topic)
  | [] => return []
  | id :: ids => do
    match w.find? id with
    | some t => return t :: (← collect w ids)
    | none => throw (.store (.notFound "topic" id))

/-- One translated topic for each required id: the first of those found, else a placeholder. -/
def complete (store : TopicStore σ) (found : List Topic) (required : List Int) (locale : String) :
    Press σ (List Topic) := do
  Press.check
  let missing := missingIds found required
  if missing.isEmpty then collect ⟨found, []⟩ required
  else
    let sources ← Press.ask (store.topics missing)
    collect (← addSources locale missing ⟨found, lastOfEach sources⟩) required

/-- The translations that the store has, completed. -/
def fetch (store : TopicStore σ) (required : List Int) (locale : String) : Press σ (List Topic) := do
  complete store (← Press.ask (store.translations required locale)) required locale

end Translation
end Bookbinder
