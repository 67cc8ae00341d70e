import Marginalia.FileTree.Change
import Marginalia.Proofs.Path.Absolute

/-! # Paths that are no texts for the system

The system reads a path up to the character with number zero, so a path that holds it is refused before
anything is looked up. No other path is refused that way, by whichever operation.
-/
namespace Marginalia

open Text

/-- A path holds the character that ends texts for the system. -/
def HoldsNul (path : List Char) : Prop :=
  Char.ofNat 0 ∈ path

namespace HoldsNul

theorem of_text {p : Path} (h : HoldsNul p.text) : ∃ n ∈ p.segments, HoldsNul n := by
  rcases Path.mem_text h with h | h | h
  · simp at h
  · simp at h
  · exact h

theorem of_segment {path : List Char} {n : Name} (hn : n ∈ (Path.parse path).segments) (h : HoldsNul n) :
    HoldsNul path :=
  mem_of_mem_slashParts (List.mem_filter.mp hn).1 h

theorem of_joined {a b : List Char} (h : HoldsNul (Path.joined a b)) : HoldsNul a ∨ HoldsNul b := by
  unfold HoldsNul Path.joined at h
  split at h
  · exact Or.inr h
  · split at h
    · exact List.mem_append.mp h
    · rcases List.mem_append.mp h with h | h
      · exact Or.inl h
      · exact Or.inr (by simpa [HoldsNul] using h)

theorem of_baseName {path : List Char} (h : HoldsNul (Path.baseName path)) : HoldsNul path := by
  rw [HoldsNul, Path.baseName, List.mem_reverse] at h
  exact List.mem_reverse.mp (List.takeWhile_subset _ h)

theorem of_dropEndWhile {path : List Char} {p : Char → Bool} (h : HoldsNul (dropEndWhile p path)) :
    HoldsNul path := by
  rw [HoldsNul, dropEndWhile, List.mem_reverse] at h
  exact List.mem_reverse.mp (List.dropWhile_subset _ h)

theorem of_directory {path : List Char} (h : HoldsNul (Path.directory path)) : HoldsNul path := by
  have hfront : ∀ c ∈ (path.reverse.dropWhile (· ≠ '/')).reverse, c ∈ path := by
    intro c hc
    exact List.mem_reverse.mp (List.dropWhile_subset _ (List.mem_reverse.mp hc))
  unfold HoldsNul Path.directory at h
  dsimp only at h
  split at h
  · exact hfront _ h
  · exact hfront _ (of_dropEndWhile h)

end HoldsNul

namespace FileTree

variable {t : FileTree} {path : List Char}

theorem holdsNul_of_locate {follow : Bool} (h : t.locate path follow = .error .nulInPath) :
    HoldsNul path := by
  unfold locate at h
  split at h
  · next hnul => simpa [HoldsNul] using hnul
  · split at h
    · simp at h
    · split at h
      · simp at h
      · dsimp only at h
        split at h <;> simp at h

theorem not_holdsNul_of_locate {follow : Bool} {g : Target} (h : t.locate path follow = .ok g) :
    ¬ HoldsNul path := by
  intro hnul
  have hcontains : path.contains (Char.ofNat 0) = true := by simpa [HoldsNul] using hnul
  rw [locate, if_pos hcontains] at h
  simp at h

theorem holdsNul_of_stat (h : t.stat path = .error .nulInPath) : HoldsNul path := by
  unfold stat at h
  cases hl : t.locate path true with
  | error fault =>
    rw [hl] at h
    cases h
    exact holdsNul_of_locate hl
  | ok g =>
    rw [hl] at h
    cases g <;> simp [bind, Except.bind] at h

theorem not_holdsNul_of_stat {x : Place × Entry} (h : t.stat path = .ok x) : ¬ HoldsNul path := by
  unfold stat at h
  cases hl : t.locate path true with
  | error fault => simp [hl, bind, Except.bind] at h
  | ok g => exact not_holdsNul_of_locate hl

theorem holdsNul_of_read (h : t.read path = .error .nulInPath) : HoldsNul path := by
  unfold FileTree.read at h
  cases hs : t.stat path with
  | error fault =>
    rw [hs] at h
    cases h
    exact holdsNul_of_stat hs
  | ok x =>
    obtain ⟨place, e⟩ := x
    cases e <;> simp [hs, bind, Except.bind] at h

theorem read_of_holdsNul (h : HoldsNul path) : t.read path = .error .nulInPath := by
  have hcontains : path.contains (Char.ofNat 0) = true := by simpa [HoldsNul] using h
  rw [FileTree.read, stat, locate, if_pos hcontains]
  rfl

theorem holdsNul_of_list (h : t.list path = .error .nulInPath) : HoldsNul path := by
  unfold FileTree.list at h
  cases hs : t.stat path with
  | error fault =>
    rw [hs] at h
    cases h
    exact holdsNul_of_stat hs
  | ok x =>
    obtain ⟨place, e⟩ := x
    cases e with
    | dir =>
      simp only [hs, bind, Except.bind] at h
      split at h <;> simp at h
    | _ => simp [hs, bind, Except.bind] at h

theorem holdsNul_of_write {content : ByteArray} (h : t.write path content = .error .nulInPath) :
    HoldsNul path := by
  unfold FileTree.write at h
  cases hl : t.locate path true with
  | error fault =>
    rw [hl] at h
    cases h
    exact holdsNul_of_locate hl
  | ok g =>
    rw [hl] at h
    cases g with
    | found place e =>
      cases e with
      | file c =>
        simp only [bind, Except.bind] at h
        split at h <;> simp at h
      | _ => simp [bind, Except.bind] at h
    | free parent name slash => cases slash <;> simp [bind, Except.bind] at h

theorem holdsNul_of_makeLast (h : (t.makeLast path).fault = some .nulInPath) : HoldsNul path := by
  unfold makeLast makeDir at h
  cases hl : t.locate path false with
  | error fault =>
    simp only [hl, bind, Except.bind] at h
    split at h
    · simp at h
    · cases h
      exact holdsNul_of_locate hl
  | ok g => cases g <;> simp [hl, bind, Except.bind] at h

theorem holdsNul_of_makeDirsFrom {root : Root} {ns : List Name}
    (h : (t.makeDirsFrom root ns).fault = some .nulInPath) : ∃ n ∈ ns, HoldsNul n := by
  induction ns with
  | nil => simp [makeDirsFrom] at h
  | cons n outer ih =>
    have hlast : ∀ u : FileTree,
        (u.makeLast (Path.mk root (n :: outer).reverse).text).fault = some .nulInPath →
          ∃ m ∈ n :: outer, HoldsNul m := by
      intro u hu
      obtain ⟨m, hm, hnul⟩ := (holdsNul_of_makeLast hu).of_text
      exact ⟨m, List.mem_reverse.mp hm, hnul⟩
    rw [makeDirsFrom] at h
    dsimp only at h
    split at h
    · exact hlast _ h
    · split at h
      · exact hlast _ h
      · exact hlast _ h
      · obtain ⟨m, hm, hnul⟩ := ih h
        exact ⟨m, List.mem_cons_of_mem _ hm, hnul⟩

theorem holdsNul_of_makeDirs (h : (t.makeDirs path).fault = some .nulInPath) : HoldsNul path := by
  obtain ⟨n, hn, hnul⟩ := holdsNul_of_makeDirsFrom h
  exact hnul.of_segment (List.mem_reverse.mp hn)

theorem holdsNul_of_copyFile {source target : List Char}
    (h : t.copyFile source target = .error .nulInPath) : HoldsNul source ∨ HoldsNul target := by
  unfold copyFile at h
  split at h
  · simp at h
  · split at h
    · simp at h
    · split at h
      · simp at h
      · cases hr : t.read source with
        | error fault =>
          rw [hr] at h
          cases h
          exact Or.inl (holdsNul_of_read hr)
        | ok content =>
          rw [hr] at h
          exact Or.inr (holdsNul_of_write h)

theorem fault_foldl_copyEntry {inner : FileTree → List Char → List Char → Copied}
    {source target : List Char} {names : List Name} {done : Copied} (h : done.fault = none) :
    (names.foldl (copyEntry inner source target) done).fault = none := by
  induction names generalizing done with
  | nil => exact h
  | cons n names ih => exact ih rfl

theorem holdsNul_of_copyDir {source target : List Char}
    (h : (t.copyDir source target).fault = some .nulInPath) : HoldsNul source ∨ HoldsNul target := by
  rw [copyDir, maxDepth, copyDirFrom] at h
  split at h
  · next hl =>
    cases h
    exact Or.inl (holdsNul_of_list hl)
  · dsimp only at h
    split at h
    · next hmade =>
      cases h
      exact Or.inr (holdsNul_of_makeDirs hmade)
    · rw [fault_foldl_copyEntry rfl] at h
      simp at h

end FileTree
end Marginalia
