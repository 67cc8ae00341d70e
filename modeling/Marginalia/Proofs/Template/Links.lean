import Marginalia.Template.Render

/-! # Which links a template asks for

Whether a template asks for links to one asset and to the sources it goes through, and for no others, is
read off its parts. Such a template is filled alike by all ways to link that agree on these. The layouts
that are always there have such templates.
-/
namespace Marginalia.Template

open Text

section Asks

mutual

/-- Whether an expression asks for no link. -/
def Expr.silent : Expr → Bool
  | .literal _ | .name _ => true
  | .attr e _ | .not e | .negate e => e.silent
  | .item a b | .and a b | .or a b | .binary _ a b | .compare _ a b => a.silent && b.silent
  | .call .. => false
  | .filter e _ args | .test e _ args => e.silent && silentAll args
  | .choose a c none => a.silent && c.silent
  | .choose a c (some b) => a.silent && c.silent && b.silent
  | .list es => silentAll es

/-- Whether expressions ask for no link. -/
def silentAll : List Expr → Bool
  | [] => true
  | e :: es => e.silent && silentAll es

end

/-- The variable with all sources. -/
def sourcesName : List Char := "sources".toList

/-- Whether an expression asks for no link but to an asset or to sources with certain names. -/
def Expr.asksOnly (asset : List Char) (names : List (List Char)) : Expr → Bool
  | .call (.name _) [.literal (.text s)] [] => s = asset
  | .call (.name _) [.name n] [] => names.contains n
  | e => e.silent

/-- The names of a loop that goes through the sources. -/
def sourceNames (targets : List (List Char)) (items : Expr) : List (List Char) :=
  match targets, items with
  | [n], .name m => if m = sourcesName then [n] else []
  | _, _ => []

mutual

/-- Whether a part asks for no link but to an asset or to sources with certain names. -/
def Node.asksOnly (asset : List Char) (names : List (List Char)) : Node → Bool
  | .text _ => true
  | .print e => e.asksOnly asset names
  | .branch none body otherwise => asksOnlyAll asset names body && asksOnlyAll asset names otherwise
  | .branch (some c) body otherwise =>
    c.silent && asksOnlyAll asset names body && asksOnlyAll asset names otherwise
  | .loop targets items body otherwise =>
    items.silent && !targets.contains sourcesName &&
      asksOnlyAll asset (sourceNames targets items) body && asksOnlyAll asset names otherwise
  | .assign .. | .includes .. => false

/-- Whether parts ask for no link but to an asset or to sources with certain names. -/
def asksOnlyAll (asset : List Char) (names : List (List Char)) : List Node → Bool
  | [] => true
  | n :: ns => n.asksOnly asset names && asksOnlyAll asset names ns

end

end Asks

section Relink

/-- The scope with another way to link. -/
def Scope.relinked (sc : Scope) (link : List Char → List Char) : Scope :=
  { sc with link }

variable (sc : Scope) (link : List Char → List Char)

@[simp]
theorem Scope.vars_relinked : (sc.relinked link).vars = sc.vars := rfl

@[simp]
theorem Scope.sources_relinked : (sc.relinked link).sources = sc.sources := rfl

theorem Scope.relinked_link : sc.relinked sc.link = sc := rfl

theorem Item.attr_relinked (n : List Char) (x : Item) : x.attr (sc.relinked link) n = x.attr sc n := rfl

theorem Item.item_relinked (i x : Item) : x.item (sc.relinked link) i = x.item sc i := rfl

theorem applyFilter_relinked (n : List Char) (x : Item) (args : List Item) :
    applyFilter (sc.relinked link) n x args = applyFilter sc n x args := rfl

mutual

/-- A silent expression does not depend on the way to link. -/
theorem eval_relinked {e : Expr} (h : e.silent = true) : eval (sc.relinked link) e = eval sc e := by
  cases e with
  | literal v => simp only [eval]
  | name n => simp only [eval, Scope.vars_relinked]
  | attr e n =>
    simp only [Expr.silent] at h
    simp only [eval, eval_relinked h, Item.attr_relinked]
  | item a b =>
    simp only [Expr.silent, Bool.and_eq_true] at h
    simp only [eval, eval_relinked h.1, eval_relinked h.2, Item.item_relinked]
  | call e args named => simp [Expr.silent] at h
  | filter e n args =>
    simp only [Expr.silent, Bool.and_eq_true] at h
    simp only [eval, eval_relinked h.1, evalAll_relinked h.2, applyFilter_relinked]
  | test e n args =>
    simp only [Expr.silent, Bool.and_eq_true] at h
    simp only [eval, eval_relinked h.1, evalAll_relinked h.2]
  | not e =>
    simp only [Expr.silent] at h
    simp only [eval, eval_relinked h]
  | negate e =>
    simp only [Expr.silent] at h
    simp only [eval, eval_relinked h]
  | and a b =>
    simp only [Expr.silent, Bool.and_eq_true] at h
    simp only [eval, eval_relinked h.1, eval_relinked h.2]
  | or a b =>
    simp only [Expr.silent, Bool.and_eq_true] at h
    simp only [eval, eval_relinked h.1, eval_relinked h.2]
  | binary op a b =>
    simp only [Expr.silent, Bool.and_eq_true] at h
    simp only [eval, eval_relinked h.1, eval_relinked h.2, Scope.sources_relinked]
  | compare c a b =>
    simp only [Expr.silent, Bool.and_eq_true] at h
    simp only [eval, eval_relinked h.1, eval_relinked h.2]
  | choose a c b =>
    cases b with
    | none =>
      simp only [Expr.silent, Bool.and_eq_true] at h
      simp only [eval, eval_relinked h.1, eval_relinked h.2]
    | some b =>
      simp only [Expr.silent, Bool.and_eq_true] at h
      simp only [eval, eval_relinked h.1.1, eval_relinked h.1.2, eval_relinked h.2]
  | list es =>
    simp only [Expr.silent] at h
    simp only [eval, evalAll_relinked h]

theorem evalAll_relinked {es : List Expr} (h : silentAll es = true) :
    evalAll (sc.relinked link) es = evalAll sc es := by
  cases es with
  | nil => simp only [evalAll]
  | cons e es =>
    simp only [silentAll, Bool.and_eq_true] at h
    simp only [evalAll, eval_relinked h.1, evalAll_relinked h.2]

end

end Relink

section Agree

/-- The variables of a scope: all sources, and single ones by certain names. -/
structure Scope.Sees (sc : Scope) (names : List (List Char)) : Prop where
  sources : sc.vars.lookup sourcesName = some (.list ((List.range sc.sources.length).map .source))
  names : ∀ n ∈ names, ∃ i < sc.sources.length, sc.vars.lookup n = some (.source i)

/-- Two ways to link that agree on an asset and on the pages of sources. -/
def AgreeOn (asset : List Char) (sources : List Source) (f g : List Char → List Char) : Prop :=
  ∀ x ∈ asset :: sources.map (·.outputPath), f x = g x

variable {sc : Scope} {link : List Char → List Char} {asset : List Char} {names : List (List Char)}

/-- A call of an asset, or of a source that is there, asks for a link on which all agree. -/
theorem applyCall_relinked (hlink : AgreeOn asset sc.sources link sc.link) (f : Item) {x : Item}
    (hx : x = .loose (.text asset) ∨ ∃ i < sc.sources.length, x = .source i) :
    applyCall (sc.relinked link) f [x] = applyCall sc f [x] := by
  rcases hx with rfl | ⟨i, hi, rfl⟩
  · have hasset : link asset = sc.link asset := hlink asset (by simp)
    cases f with
    | destination => simp only [applyCall, Scope.relinked, hasset]
    | _ => rfl
  · have hpage : link sc.sources[i].outputPath = sc.link sc.sources[i].outputPath :=
      hlink _ (List.mem_cons_of_mem _ (List.mem_map_of_mem (List.getElem_mem hi)))
    cases f with
    | destination =>
      simp only [applyCall, Scope.relinked, List.getElem?_eq_getElem hi, Option.map_some, Option.getD_some,
        hpage]
    | _ => rfl

theorem eval_relinked_of_asksOnly {e : Expr} (h : e.asksOnly asset names = true) (hsees : sc.Sees names)
    (hlink : AgreeOn asset sc.sources link sc.link) : eval (sc.relinked link) e = eval sc e := by
  unfold Expr.asksOnly at h
  split at h
  · next f s =>
    obtain rfl : s = asset := by simpa using h
    simp only [eval, evalAll, evalNamed, bind, Except.bind, pure, Except.pure, Scope.vars_relinked]
    exact applyCall_relinked hlink _ (Or.inl rfl)
  · next f n =>
    obtain ⟨i, hi, hn⟩ := hsees.names n (by simpa using h)
    simp only [eval, evalAll, evalNamed, bind, Except.bind, pure, Except.pure, Scope.vars_relinked, hn]
    exact applyCall_relinked hlink _ (Or.inr ⟨i, hi, rfl⟩)
  · exact eval_relinked sc link h

theorem lookup_bindTargets {targets : List (List Char)} {x : Item} {bound : List (List Char × Item)}
    (h : bindTargets targets x = .ok bound) {n : List Char} (hn : n ∉ targets) : bound.lookup n = none := by
  rw [List.lookup_eq_none_iff]
  intro b hb
  have hmem : b.1 ∈ targets := by
    unfold bindTargets at h
    split at h
    · cases h
      simpa using congrArg Prod.fst (List.mem_singleton.mp hb)
    · split at h
      · split at h
        · cases h
          exact (List.of_mem_zip hb).1
        · simp at h
      · simp at h
  simpa using fun heq : n = b.1 => hn (heq ▸ hmem)

/-- A round of a loop sees all sources, and its own one if it goes through them. -/
theorem Scope.Sees.round (hsees : sc.Sees names) {targets : List (List Char)} {items : Expr}
    (htargets : sourcesName ∉ targets) {y : Item} (hy : eval sc items = .ok y) {xs : List Item}
    (hxs : y.items? = some xs) {x : Item} (hx : x ∈ xs) {bound : List (List Char × Item)}
    (hbound : bindTargets targets x = .ok bound) (state : Item) :
    Scope.Sees { sc with vars := bound ++ ("loop".toList, state) :: sc.vars }
      (sourceNames targets items) := by
  refine ⟨?_, ?_⟩
  · have hloop : (sourcesName == "loop".toList) = false := by decide
    rw [List.lookup_append, lookup_bindTargets hbound htargets, Option.none_or, List.lookup_cons, hloop]
    exact hsees.sources
  · intro n hn
    unfold sourceNames at hn
    split at hn
    · next m k =>
      split at hn
      · next hk =>
        subst hk
        obtain rfl := List.mem_singleton.mp hn
        simp only [eval, hsees.sources, Option.getD_some, Except.ok.injEq] at hy
        subst hy
        cases hxs
        obtain ⟨i, hi, rfl⟩ := List.mem_map.mp hx
        cases hbound
        exact ⟨i, List.mem_range.mp hi, by simp⟩
      · simp at hn
    · simp at hn

theorem mapM_congr {α β ε : Type} {f g : α → Except ε β} {l : List α} (h : ∀ a ∈ l, f a = g a) :
    l.mapM f = l.mapM g := by
  induction l with
  | nil => rfl
  | cons a l ih =>
    rw [List.mapM_cons, List.mapM_cons, h a List.mem_cons_self,
      ih fun b hb => h b (List.mem_cons_of_mem _ hb)]

section Fill

variable (load load' : Scope → Item → Bool → Except TemplateFault (List Char))

/-- The text of a round of a loop. -/
def roundText (sc : Scope) (targets : List (List Char)) (body : List Node) (count : Nat) :
    Item × Nat → Except TemplateFault (List Char)
  | (x, i) => do
    let bound ← bindTargets targets x
    let state : List Char × Item := ("loop".toList, .rounds i count)
    return (← renderNodes load { sc with vars := bound ++ state :: sc.vars } body).1

theorem renderNode_loop (sc : Scope) (targets : List (List Char)) (items : Expr)
    (body otherwise : List Node) :
    renderNode load sc (.loop targets items body otherwise) = do
      match (← eval sc items).items? with
      | none => throw .type
      | some [] => return ((← renderNodes load sc otherwise).1, sc)
      | some xs =>
        return ((← xs.zipIdx.mapM (roundText load sc targets body xs.length)).flatten, sc) := by
  simp only [renderNode]
  rfl

mutual

/-- A part that asks for no other links is filled alike, and leaves the scope as it is. It includes
nothing, so it does not matter what would be included. -/
theorem renderNode_relinked {sc : Scope} {names : List (List Char)} {n : Node}
    (h : n.asksOnly asset names = true) (hsees : sc.Sees names)
    (hlink : AgreeOn asset sc.sources link sc.link) :
    ∃ out, renderNode load sc n = Except.map (·, sc) out ∧
      renderNode load' (sc.relinked link) n = Except.map (·, sc.relinked link) out := by
  cases n with
  | text s => exact ⟨.ok s, by simp only [renderNode]; rfl, by simp only [renderNode]; rfl⟩
  | print e =>
    simp only [Node.asksOnly] at h
    refine ⟨(eval sc e).map (·.text sc.sources), ?_, ?_⟩
    · simp only [renderNode]
      cases eval sc e <;> rfl
    · simp only [renderNode, eval_relinked_of_asksOnly h hsees hlink]
      cases eval sc e <;> rfl
  | branch c body otherwise =>
    cases c with
    | none =>
      simp only [Node.asksOnly, Bool.and_eq_true] at h
      simp only [renderNode, bind, Except.bind, pure, Except.pure, ↓reduceIte]
      exact renderNodes_relinked h.1 hsees hlink
    | some c =>
      simp only [Node.asksOnly, Bool.and_eq_true] at h
      simp only [renderNode, eval_relinked sc link h.1.1]
      cases eval sc c with
      | error fault => exact ⟨.error fault, rfl, rfl⟩
      | ok x =>
        simp only [bind, Except.bind, pure, Except.pure]
        split
        · exact renderNodes_relinked h.1.2 hsees hlink
        · exact renderNodes_relinked h.2 hsees hlink
  | loop targets items body otherwise =>
    simp only [Node.asksOnly, Bool.and_eq_true, Bool.not_eq_true', List.contains_eq_mem,
      decide_eq_false_iff_not] at h
    obtain ⟨⟨⟨hitems, htargets⟩, hbody⟩, hother⟩ := h
    simp only [renderNode_loop, eval_relinked sc link hitems]
    cases heval : eval sc items with
    | error fault => exact ⟨.error fault, rfl, rfl⟩
    | ok y =>
      simp only [bind, Except.bind]
      split
      · exact ⟨.error .type, rfl, rfl⟩
      · obtain ⟨out, hsc, hre⟩ := renderNodes_relinked hother hsees hlink
        refine ⟨out, ?_, ?_⟩
        · rw [hsc]
          cases out <;> rfl
        · rw [hre]
          cases out <;> rfl
      · next xs hne hxs =>
        -- a round sees what the loop sees and its own source, so its body is filled alike
        have hround : ∀ a ∈ xs.zipIdx, roundText load' (sc.relinked link) targets body xs.length a =
            roundText load sc targets body xs.length a := by
          rintro ⟨x, i⟩ ha
          have hx : x ∈ xs := List.fst_mem_of_mem_zipIdx ha
          simp only [roundText]
          cases hbound : bindTargets targets x with
          | error fault => rfl
          | ok bound =>
            have hinner := hsees.round htargets heval hxs hx hbound (.rounds i xs.length)
            obtain ⟨out, hsc, hre⟩ := renderNodes_relinked hbody hinner hlink
            have hre' : renderNodes load' { sc.relinked link with
                vars := bound ++ ("loop".toList, .rounds i xs.length) :: sc.vars } body = _ := hre
            simp only [bind, Except.bind, Scope.vars_relinked, hsc, hre']
            cases out <;> rfl
        rw [mapM_congr hround]
        refine ⟨(xs.zipIdx.mapM (roundText load sc targets body xs.length)).map List.flatten, ?_, ?_⟩
        · cases xs.zipIdx.mapM (roundText load sc targets body xs.length) <;> rfl
        · cases xs.zipIdx.mapM (roundText load sc targets body xs.length) <;> rfl
  -- parts of these two kinds ask for more than such links
  | assign m e => simp [Node.asksOnly] at h
  | includes e ignore => simp [Node.asksOnly] at h

theorem renderNodes_relinked {sc : Scope} {names : List (List Char)} {ns : List Node}
    (h : asksOnlyAll asset names ns = true) (hsees : sc.Sees names)
    (hlink : AgreeOn asset sc.sources link sc.link) :
    ∃ out, renderNodes load sc ns = Except.map (·, sc) out ∧
      renderNodes load' (sc.relinked link) ns = Except.map (·, sc.relinked link) out := by
  cases ns with
  | nil => exact ⟨.ok [], by simp only [renderNodes]; rfl, by simp only [renderNodes]; rfl⟩
  | cons n ns =>
    simp only [asksOnlyAll, Bool.and_eq_true] at h
    obtain ⟨first, hsc, hre⟩ := renderNode_relinked h.1 hsees hlink
    obtain ⟨rest, hsc', hre'⟩ := renderNodes_relinked h.2 hsees hlink
    refine ⟨do return (← first) ++ (← rest), ?_, ?_⟩
    · simp only [renderNodes, hsc]
      cases first with
      | error fault => rfl
      | ok s =>
        simp only [Except.map, bind, Except.bind, hsc']
        cases rest <;> rfl
    · simp only [renderNodes, hre]
      cases first with
      | error fault => rfl
      | ok s =>
        simp only [Except.map, bind, Except.bind, hre']
        cases rest <;> rfl

end

end Fill

end Agree

/-- A template that asks for links to an asset and to the sources only is filled alike by all ways to link
that agree on these, whatever the tree. -/
theorem Loaded.render_relinked {loaded : Loaded} {asset : List Char} {sc : Scope}
    {link : List Char → List Char} (h : asksOnlyAll asset [] loaded.nodes = true) (hsees : sc.Sees [])
    (hlink : AgreeOn asset sc.sources link sc.link) (t u : FileTree) :
    loaded.render u (sc.relinked link) = loaded.render t sc := by
  obtain ⟨out, hsc, hre⟩ := renderNodes_relinked (renderIncluded (sourceOf t loaded.dir) maxIncludes)
    (renderIncluded (sourceOf u loaded.dir) maxIncludes) h hsees hlink
  rw [render, render, hsc, hre]
  cases out <;> rfl

end Marginalia.Template
