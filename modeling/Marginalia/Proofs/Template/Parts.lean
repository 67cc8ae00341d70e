import Marginalia.Proofs.Template.Links

/-! # Filled templates in parts

A filled template is told in parts: what the template writes itself, texts that it writes escaped, links and
finished markup that it writes as they are. There is one rule for each kind of node, and a template that
assigns and includes nothing is put together from them.
-/
namespace Marginalia.Template

open Text

/-- A part of a filled template. -/
inductive Part where
  /-- What the template writes of its own. -/
  | fixed (s : List Char)
  /-- A text that is shown inside an element, written escaped. -/
  | text (v : List Char)
  /-- A link that is the value of an attribute, written as it is. -/
  | link (v : List Char)
  /-- Finished markup, written as it is. -/
  | markup (s : List Char)

/-- A part as it is written. -/
def Part.written : Part → List Char
  | fixed s | link s | markup s => s
  | text v => escapeQuoted v

def written (ps : List Part) : List Char :=
  ps.flatMap Part.written

@[simp]
theorem written_nil : written [] = [] := rfl

@[simp]
theorem written_cons (p : Part) (ps : List Part) : written (p :: ps) = p.written ++ written ps := rfl

@[simp]
theorem written_append (ps qs : List Part) : written (ps ++ qs) = written ps ++ written qs :=
  List.flatMap_append

theorem written_flatten (rs : List (List Part)) : written rs.flatten = (rs.map written).flatten := by
  induction rs with
  | nil => rfl
  | cons r rs ih => simp [ih]

/-- The scope inside a round of a loop. -/
def Scope.round (sc : Scope) (n : List Char) (x : Item) (k count : Nat) : Scope :=
  { sc with vars := (n, x) :: ("loop".toList, .rounds k count) :: sc.vars }

section Fills

variable (load : Scope → Item → Bool → Except TemplateFault (List Char)) (sc : Scope)

/-- Nodes are filled with parts, and the scope stays as it is. -/
def Fills (ns : List Node) (ps : List Part) : Prop :=
  renderNodes load sc ns = .ok (written ps, sc)

variable {load sc} {ns : List Node} {ps : List Part}

theorem Fills.nil : Fills load sc [] [] := by
  simp only [Fills, renderNodes]
  rfl

/-- A node in front of others, filled with parts in front of theirs. -/
theorem Fills.cons {n : Node} {q : List Part} (hn : renderNode load sc n = .ok (written q, sc))
    (h : Fills load sc ns ps) : Fills load sc (n :: ns) (q ++ ps) := by
  rw [Fills] at h
  simp only [Fills, renderNodes, hn, h, bind, Except.bind, pure, Except.pure, written_append]

theorem Fills.fixed {s : List Char} (h : Fills load sc ns ps) :
    Fills load sc (.text s :: ns) (.fixed s :: ps) :=
  .cons (q := [.fixed s]) (by simp [renderNode, Part.written]) h

/-- An expression is printed as a part that is written like its value. -/
theorem Fills.print {e : Expr} {x : Item} {p : Part} (he : eval sc e = .ok x)
    (hp : x.text sc.sources = p.written) (h : Fills load sc ns ps) :
    Fills load sc (.print e :: ns) (p :: ps) :=
  .cons (q := [p]) (by simp [renderNode, he, hp, bind, Except.bind, pure, Except.pure]) h

/-- A condition takes the parts of its body or none. -/
theorem Fills.branch {c : Expr} {x : Item} {P : Prop} [Decidable P] {body : List Node} {qs : List Part}
    (hc : eval sc c = .ok x) (hP : x.truthy = true ↔ P) (hbody : P → Fills load sc body qs)
    (h : Fills load sc ns ps) :
    Fills load sc (.branch (some c) body [] :: ns) ((if P then qs else []) ++ ps) := by
  refine .cons ?_ h
  simp only [renderNode, hc, bind, Except.bind, pure, Except.pure]
  split
  · next htrue =>
    rw [if_pos (hP.mp htrue)]
    exact hbody (hP.mp htrue)
  · next hfalse =>
    rw [if_neg fun hP' => hfalse (hP.mpr hP')]
    simp only [renderNodes]
    rfl

theorem mapM_zipIdx_eq_ok {α β ε : Type} {f : α × Nat → Except ε β} {xs : List α} {ys : List β} {n : Nat}
    (hlen : ys.length = xs.length)
    (h : ∀ k x y, xs[k]? = some x → ys[k]? = some y → f (x, n + k) = .ok y) :
    (xs.zipIdx n).mapM f = .ok ys := by
  induction xs generalizing ys n with
  | nil =>
    rw [List.length_eq_zero_iff.mp hlen]
    rfl
  | cons x xs ih =>
    obtain ⟨y, ys, rfl⟩ := List.exists_cons_of_length_eq_add_one hlen
    have hrest : (xs.zipIdx (n + 1)).mapM f = .ok ys := by
      refine ih (by simpa using hlen) fun k x' y' hx hy => ?_
      rw [Nat.add_assoc, Nat.add_comm 1]
      exact h (k + 1) x' y' hx hy
    rw [List.zipIdx_cons, List.mapM_cons, show f (x, n) = .ok y from h 0 x y rfl rfl, hrest]
    rfl

theorem Fills.loop {n : List Char} {items : Expr} {x : Item} {xs : List Item} {body : List Node}
    {rounds : List (List Part)} (hitems : eval sc items = .ok x) (hxs : x.items? = some xs)
    (hlen : rounds.length = xs.length)
    (hbody : ∀ (k : Nat) y r, xs[k]? = some y → rounds[k]? = some r →
      Fills load (sc.round n y k xs.length) body r) (h : Fills load sc ns ps) :
    Fills load sc (.loop [n] items body [] :: ns) (rounds.flatten ++ ps) := by
  refine .cons ?_ h
  have hround : xs.zipIdx.mapM (roundText load sc [n] body xs.length) = .ok (rounds.map written) := by
    refine mapM_zipIdx_eq_ok (by simpa using hlen) fun k y r hy hr => ?_
    rw [List.getElem?_map, Option.map_eq_some_iff] at hr
    obtain ⟨r, hr, rfl⟩ := hr
    have hfills := hbody k y r hy hr
    rw [Fills, Scope.round] at hfills
    simp only [roundText, bindTargets, bind, Except.bind, pure, Except.pure, Nat.zero_add,
      List.singleton_append, hfills]
  simp only [renderNode_loop, hitems, bind, Except.bind, hxs]
  split
  · next heq => cases heq
  · next heq =>
    cases heq
    rw [List.length_eq_zero_iff.mp hlen]
    simp [renderNodes, pure, Except.pure]
  · next ys _ heq =>
    cases heq
    rw [hround, written_flatten]
    rfl

end Fills

end Marginalia.Template
