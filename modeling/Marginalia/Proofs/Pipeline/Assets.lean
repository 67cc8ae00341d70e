import Marginalia.Proofs.FileTree.Mirror
import Marginalia.Proofs.Pipeline.Publish
import Marginalia.Proofs.Pipeline.Effects

/-! # Where assets land

Assets that are copied without a failure stand below the output directory at their own paths, unless a
directory stands in the way of one of them. Such a file goes into the directory, without a word. What
stands elsewhere stays as it is.
-/
namespace Marginalia.Pipeline

open Text FileTree

variable {p q : Pipeline} {P : Path} {S T : Place}

/-- Assets land. After a copy that did not fail, each file of the assets is found with its content where it
goes: at its own path if no directory stood there, else in that directory under its own name. All else is
unchanged, below the output directory and elsewhere. -/
theorem assets_land (ht : p.world.tree.WellFormed) (hcopy : p.world.copy = none) (hP : P.Rooted)
    (houtput : p.options.output = P.text)
    (hS : p.world.tree.stat (Path.joined p.options.layout assetsName) = .ok (S, .dir))
    (hSfree : p.world.tree.LinkFree S)
    (hT : p.world.tree.LeadsTo (Path.joined p.options.output assetsName) T)
    (hTfree : p.world.tree.LinkFree T) (hclear : Clear p.world.tree S T)
    (h : copyAssets.run.run p = (.ok (), q)) :
    (∀ r c, p.world.tree.get? (S ++ r) = some (.file c) →
      q.world.tree.stat (Path.below (Path.joined p.options.output assetsName)
          (landing p.world.tree T r)) = .ok (T ++ landing p.world.tree T r, .file c) ∧
        (p.world.tree.get? (T ++ r) ≠ some .dir →
          q.world.tree.stat (Path.below (Path.joined p.options.output assetsName) r) =
            .ok (T ++ r, .file c))) ∧
    ∀ place e, p.world.tree.get? place = some e →
      (∀ r c, p.world.tree.get? (S ++ r) = some (.file c) → place ≠ T ++ landing p.world.tree T r) →
      q.world.tree.get? place = some e := by
  obtain ⟨-, -, hcopied⟩ := (yields_copyAssets hcopy).sound h
  have htarget : Path.joined p.options.output assetsName =
      Path.text ⟨P.root, P.segments ++ [assetsName]⟩ := by
    rw [houtput, Path.joined_text hP isName_assetsName]
  have hdir : p.world.tree.isDir (Path.joined p.options.layout assetsName) = true := by
    rw [isDir, hS]
  rw [AssetsCopied, if_pos hdir] at hcopied
  -- the target is spelled by names, so the copy can be read off the tree
  rw [htarget] at hcopied hT ⊢
  have hQ : Path.Rooted ⟨P.root, P.segments ++ [assetsName]⟩ :=
    hP.append (by simpa using isName_assetsName)
  obtain ⟨hbrings, harrived⟩ := copyDir_brings ht hQ hS hSfree hT hTfree hclear hcopied
  refine ⟨fun r c hr => ?_, fun place e he hplace => ?_⟩
  · have hland := harrived r c hr
    rw [List.nil_append] at hland
    refine ⟨hland, fun hfree => ?_⟩
    rwa [landing_of_not_dir hfree] at hland
  · refine hbrings.edits.get?_of_some ?_ he
    rintro ⟨c, r, hr, heq⟩
    exact hplace r c hr heq

section Sample

/-- Two assets, of which one finds a directory and the other an older file in its place, and a file of
another name. -/
def blockedFiles : List (Place × Entry) :=
  [(["l".toList, "public".toList], .dir), (["l".toList, "public".toList, "a".toList], .file ⟨#[65]⟩),
   (["l".toList, "public".toList, "b".toList], .file ⟨#[66]⟩), (["w".toList, "docs".toList], .dir),
   (["w".toList, "docs".toList, "public".toList], .dir),
   (["w".toList, "docs".toList, "public".toList, "a".toList], .dir),
   (["w".toList, "docs".toList, "public".toList, "b".toList], .file ⟨#[0]⟩),
   (["w".toList, "docs".toList, "public".toList, "z".toList], .file ⟨#[90]⟩)]

/-- The places of the assets and of the directory they are copied onto. -/
def blockedSource : Place := ["l".toList, "public".toList]

def blockedTarget : Place := ["w".toList, "docs".toList, "public".toList]

theorem files_blocked {r : List Name} {c : ByteArray}
    (h : (sampleTree blockedFiles).get? (blockedSource ++ r) = some (.file c)) :
    r = ["a".toList] ∨ r = ["b".toList] := by
  rw [get?, if_neg (by simp [blockedSource])] at h
  obtain ⟨before, after, hentries, -⟩ := List.lookup_eq_some_iff.mp h
  have hmem : (blockedSource ++ r, Entry.file c) ∈ (sampleTree blockedFiles).entries := by simp [hentries]
  simp [sampleTree, blockedFiles, blockedSource] at hmem
  tauto

theorem exists_copied_blocked : ∃ q,
    copyAssets.run.run (samplePipeline (sampleWorld blockedFiles) []) = (.ok (), q) := by
  have hsource : Path.joined sampleConfiguration.layout assetsName = "/l/public".toList := by decide
  have htarget : Path.joined sampleConfiguration.output assetsName = "/w/docs/public".toList := by decide
  have hdir : (sampleTree blockedFiles).isDir "/l/public".toList = true := by cbv
  obtain ⟨t, hcopy⟩ : ∃ t, (sampleTree blockedFiles).copyDir "/l/public".toList "/w/docs/public".toList =
      ⟨t, none, []⟩ := by
    rw [copyDir, FileTree.maxDepth, copyDirFrom]
    exact ⟨_, by cbv⟩
  have hcopied : AssetsCopied sampleConfiguration (sampleTree blockedFiles) t := by
    rw [AssetsCopied, hsource, htarget]
    exact (if_pos hdir).mpr hcopy
  obtain ⟨q, hq, -⟩ := (yields_copyAssets (p := samplePipeline (sampleWorld blockedFiles) []) rfl).complete
    (a := ()) (v := ⟨_, t⟩) ⟨rfl, hcopied⟩
  exact ⟨q, hq⟩

/-- The first asset is not found at its path: it went into the directory there, although the copy did not
fail. -/
theorem assets_land_blocked : ∃ q,
    copyAssets.run.run (samplePipeline (sampleWorld blockedFiles) []) = (.ok (), q) ∧
    q.world.tree.get? ["w".toList, "docs".toList, "public".toList, "a".toList] = some .dir ∧
    q.world.tree.stat "/w/docs/public/a/a".toList =
      .ok (["w".toList, "docs".toList, "public".toList, "a".toList, "a".toList], .file ⟨#[65]⟩) ∧
    q.world.tree.stat "/w/docs/public/b".toList =
      .ok (["w".toList, "docs".toList, "public".toList, "b".toList], .file ⟨#[66]⟩) ∧
    q.world.tree.get? ["w".toList, "docs".toList, "public".toList, "z".toList] = some (.file ⟨#[90]⟩) := by
  obtain ⟨q, hq⟩ := exists_copied_blocked
  have ht : (sampleTree blockedFiles).WellFormed := wellFormed_of_check (by decide)
  have hfree := linkFree_of_entries (t := sampleTree blockedFiles) (by simp [sampleTree, blockedFiles])
  have hP : Path.Rooted ⟨.single, ["w".toList, "docs".toList]⟩ := by
    refine ⟨by simp, fun n hn => (ht.isFileName_of_mem (p := ["w".toList, "docs".toList]) ?_ n hn).toIsName⟩
    decide
  obtain ⟨hland, hkept⟩ := assets_land (P := ⟨.single, ["w".toList, "docs".toList]⟩) (S := blockedSource)
    (T := blockedTarget) ht rfl hP rfl (by cbv) (hfree _) (leadsTo_of_stat (e := .dir) (by cbv)) (hfree _)
    (clear_of_apart (by decide) (by decide)) hq
  have hinside : landing (sampleTree blockedFiles) blockedTarget ["a".toList] = ["a".toList, "a".toList] := by
    decide
  have hown : landing (sampleTree blockedFiles) blockedTarget ["b".toList] = ["b".toList] := by
    decide
  have hapart : ∀ {n : Name}, n ≠ "b".toList → ∀ r c,
      (sampleTree blockedFiles).get? (blockedSource ++ r) = some (.file c) →
        blockedTarget ++ [n] ≠ blockedTarget ++ landing (sampleTree blockedFiles) blockedTarget r := by
    intro n hn r c hr heq
    rcases files_blocked hr with rfl | rfl
    · rw [hinside] at heq
      simp [blockedTarget] at heq
    · rw [hown] at heq
      exact hn (by simpa using heq)
  have ha := (hland ["a".toList] ⟨#[65]⟩ rfl).1
  have hb := (hland ["b".toList] ⟨#[66]⟩ rfl).1
  rw [show (samplePipeline (sampleWorld blockedFiles) []).world.tree = sampleTree blockedFiles from rfl]
    at ha hb
  rw [hinside] at ha
  rw [hown] at hb
  exact ⟨q, hq, hkept (blockedTarget ++ ["a".toList]) _ rfl (hapart (by decide)), ha, hb,
    hkept (blockedTarget ++ ["z".toList]) _ rfl (hapart (by decide))⟩

end Sample

end Marginalia.Pipeline
