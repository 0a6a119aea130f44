/-!
# Archives

The files of a book by their paths, in ascending order of paths.  A file takes the place of one with the same path.
-/
namespace Bookbinder

structure File where
  path : String
  bytes : ByteArray
deriving Inhabited

/-- A file of text. -/
def File.ofText (path text : String) : File :=
  ⟨path, text.toUTF8⟩

/-- Files in ascending order of their paths, which therefore differ. -/
abbrev Ascending (files : List File) : Prop :=
  files.Pairwise fun f g => f.path < g.path

structure Archive where
  files : List File := []
  ascending : Ascending files := by exact .nil

namespace Archive

instance : Inhabited Archive := ⟨{}⟩

/-! ## Writing files -/

/-- A file in its place among files by ascending paths. -/
def place (f : File) : List File → List File
  | [] => [f]
  | g :: gs => if f.path < g.path then f :: g :: gs else if f.path = g.path then f :: gs else g :: place f gs

theorem mem_of_mem_place {f h : File} {gs : List File} (hm : h ∈ place f gs) : h = f ∨ h ∈ gs := by
  induction gs with
  | nil => exact .inl (List.mem_singleton.1 hm)
  | cons g gs ih =>
    unfold place at hm
    split at hm
    · exact List.mem_cons.1 hm
    · split at hm
      · exact (List.mem_cons.1 hm).imp_right (List.mem_cons_of_mem _)
      · rcases List.mem_cons.1 hm with rfl | hm
        · exact .inr List.mem_cons_self
        · exact (ih hm).imp_right (List.mem_cons_of_mem _)

theorem ascending_place {f : File} {gs : List File} (h : Ascending gs) : Ascending (place f gs) := by
  induction gs with
  | nil => exact List.pairwise_singleton _ _
  | cons g gs ih =>
    obtain ⟨hg, hgs⟩ := List.pairwise_cons.1 h
    unfold place
    split
    · rename_i hlt
      refine List.pairwise_cons.2 ⟨fun k hk => ?_, h⟩
      rcases List.mem_cons.1 hk with rfl | hk
      · exact hlt
      · exact String.lt_trans hlt (hg k hk)
    · rename_i hle
      split
      · rename_i heq
        exact List.pairwise_cons.2 ⟨fun k hk => heq ▸ hg k hk, hgs⟩
      · rename_i hne
        refine List.pairwise_cons.2 ⟨fun k hk => ?_, ih hgs⟩
        rcases mem_of_mem_place hk with rfl | hk
        · exact Std.lt_of_le_of_ne (String.not_lt.1 hle) (Ne.symm hne)
        · exact hg k hk

def insert (a : Archive) (f : File) : Archive :=
  ⟨place f a.files, ascending_place a.ascending⟩

/-- The archive of files written one after the other. -/
def ofFiles (fs : List File) : Archive :=
  fs.foldl insert {}

/-! ## Reading files -/

def paths (a : Archive) : List String :=
  a.files.map (·.path)

def bytes? (a : Archive) (path : String) : Option ByteArray :=
  (a.files.find? fun f => f.path == path).map (·.bytes)

/-- A file's text, if it is one. -/
def text? (a : Archive) (path : String) : Option String :=
  (a.bytes? path).bind String.fromUTF8?

def size (a : Archive) : Nat :=
  a.files.length

theorem find?_place (f : File) (path : String) (gs : List File) :
    (place f gs).find? (fun g => g.path == path)
      = if f.path = path then some f else gs.find? fun g => g.path == path := by
  induction gs with
  | nil => by_cases h : f.path = path <;> simp [place, h]
  | cons g gs ih =>
    unfold place
    split
    · by_cases h : f.path = path <;> simp [h]
    · split
      · rename_i heq
        by_cases h : f.path = path
        · simp [h]
        · simp [h, show g.path ≠ path from heq ▸ h]
      · rename_i hne
        by_cases hg : g.path = path
        · simp [hg, show f.path ≠ path from hg ▸ hne]
        · simp [hg, ih]

/-- **A file that is written is found under its path, and all others stay as they were.** -/
theorem bytes?_insert (a : Archive) (f : File) (path : String) :
    (a.insert f).bytes? path = if f.path = path then some f.bytes else a.bytes? path := by
  simp only [bytes?, insert, find?_place]
  split <;> rfl

theorem nodup_paths (a : Archive) : a.paths.Nodup := by
  refine List.pairwise_map.2 (a.ascending.imp fun {f g} (h : f.path < g.path) => ?_)
  exact fun e => String.lt_irrefl _ (e ▸ h)

end Archive
end Bookbinder
