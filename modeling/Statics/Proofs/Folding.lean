import Statics.Proofs.Folding.Operators
import Statics.Proofs.Identity

/-!
# Folding integer constants

An expression of integer literals, arithmetic operators and conversions to integer types has an exact value over the
unbounded integers. Evaluating it gives a constant with that value, in the range of its type, or reports an error and
gives an invalid operand. Without conversions the first happens exactly if every part of the expression has a value of
128 bits, no divisor is zero, and the least value is not divided by minus one.
-/

namespace Statics

variable {callee e : Expr} {k : Kind} {n : Node} {z : Operand} {names : Expr → Kind → Prop}

/-! ## Exact values -/

namespace Expr

/-- An expression of integer literals, parentheses, negations, arithmetic operators and conversions to what `names`
takes for the name of an integer type. -/
inductive Integral (names : Expr → Kind → Prop) : Expr → Prop where
  | literal (n : Node) (v : Int128) : Integral names (.literal n (.int v))
  | paren (n : Node) {e : Expr} (he : Integral names e) : Integral names (.paren n e)
  | negate (n : Node) {e : Expr} (he : Integral names e) : Integral names (.unary n .negate e)
  | binary (n : Node) {op : BinaryOp} {l r : Expr} (hop : op.isArithmetic) (hl : Integral names l)
    (hr : Integral names r) : Integral names (.binary n op l r)
  | convert (n : Node) {callee arg : Expr} {k : Kind} (hcallee : names callee k) (harg : Integral names arg) :
    Integral names (.call n callee [arg])

/-- The exact value of an expression. A conversion keeps it. -/
inductive Denotes : Expr → Int → Prop where
  | literal (n : Node) (v : Int128) : Denotes (.literal n (.int v)) v.toInt
  | paren (n : Node) {e : Expr} {v : Int} (he : Denotes e v) : Denotes (.paren n e) v
  | negate (n : Node) {e : Expr} {v : Int} (he : Denotes e v) : Denotes (.unary n .negate e) (-v)
  | binary (n : Node) {op : BinaryOp} {l r : Expr} {v w u : Int} (hl : Denotes l v) (hr : Denotes r w)
    (hop : op.integer? v w = some u) : Denotes (.binary n op l r) u
  | convert (n : Node) (callee : Expr) {arg : Expr} {v : Int} (harg : Denotes arg v) : Denotes (.call n callee [arg]) v

/-- An expression has no two exact values. -/
theorem Denotes.unique {v w : Int} (hv : e.Denotes v) (hw : e.Denotes w) : v = w := by
  induction hv generalizing w with
  | literal => cases hw; rfl
  | paren _ _ ih =>
    cases hw with
    | paren _ hw => exact ih hw
  | negate _ _ ih =>
    cases hw with
    | negate _ hw => rw [ih hw]
  | binary _ _ _ hop ihl ihr =>
    cases hw with
    | binary _ hl hr hop' =>
      rw [ihl hl, ihr hr] at hop
      exact Option.some.inj (hop.symm.trans hop')
  | convert _ _ _ ih =>
    cases hw with
    | convert _ _ hw => exact ih hw

/-- An expression is part of another, or all of it. -/
inductive Within (d : Expr) : Expr → Prop where
  | self : Within d d
  | child {c e : Expr} (hc : c ∈ e.children) (h : Within d c) : Within d e

/-- An expression converts nothing, so that all its operands are untyped. -/
def IsUntyped (e : Expr) : Prop := ∀ d : Expr, d.Within e → d.isCall = false

/-- Every part of an expression has a value of 128 bits, no divisor in it is zero, and no division or remainder is of
the least value by minus one. -/
structure Fits (e : Expr) : Prop where
  values : ∀ d : Expr, d.Within e → ∃ v : Int128, d.Denotes v.toInt
  divisors : ∀ n op l r, (Expr.binary n op l r).Within e → op.isDivision →
    ¬ r.Denotes 0 ∧ ¬ (l.Denotes (-Int128.bound) ∧ r.Denotes (-1))

theorem within_iff {d : Expr} : d.Within e ↔ d = e ∨ ∃ c ∈ e.children, d.Within c := by
  constructor
  · intro h
    cases h with
    | self => exact .inl rfl
    | child hc h => exact .inr ⟨_, hc, h⟩
  · rintro (rfl | ⟨c, hc, h⟩)
    · exact .self
    · exact .child hc h

theorem IsUntyped.child {c : Expr} (h : e.IsUntyped) (hc : c ∈ e.children) : c.IsUntyped :=
  fun d hd => h d (.child hc hd)

theorem Fits.child {c : Expr} (h : e.Fits) (hc : c ∈ e.children) : c.Fits :=
  ⟨fun d hd => h.values d (.child hc hd), fun n op l r hd => h.divisors n op l r (.child hc hd)⟩

/-- An expression fits if its parts do and it adds no exception. -/
theorem Fits.of_children (h : ∀ c ∈ e.children, c.Fits) {v : Int128} (hv : e.Denotes v.toInt)
    (hdivision : ∀ n op l r, e = .binary n op l r → op.isDivision → ¬ r.Denotes 0 ∧ ¬ (l.Denotes (-Int128.bound) ∧
    r.Denotes (-1))) : e.Fits where
  values d hd := by
    rcases within_iff.mp hd with rfl | ⟨c, hc, hd⟩
    · exact ⟨v, hv⟩
    · exact (h c hc).values d hd
  divisors n op l r hd := by
    rcases within_iff.mp hd with heq | ⟨c, hc, hd⟩
    · exact hdivision n op l r heq.symm
    · exact (h c hc).divisors n op l r hd

end Expr

/-! ## Evaluation -/

/-- Under its parentheses, an expression is a name that is found from a scope and stands for a type of integers. -/
structure Arena.StandsFor (a : Arena) (scope : ScopeId) (callee : Expr) (k : Kind) : Prop where
  found : ∃ n e f, callee.unparen = .name n ∧ a.lookup scope n.name = some (e, f) ∧
    (a.entity e).kind = .typeName ∧ (a.entity e).type = some (.basic k)
  integer : k.isInteger
  settled : k.isUntyped = false

theorem Pass.Marks.standsFor {s t : Pass} (h : s.Marks t) {scope : ScopeId}
    (hs : s.store.arena.StandsFor scope callee k) : t.store.arena.StandsFor scope callee k := by
  obtain ⟨n, e, f, hcallee, hlookup, hkind, htype⟩ := hs.found
  obtain ⟨used, hentity⟩ := h.entities e
  refine ⟨⟨n, e, f, hcallee, (h.lookup scope n.name).trans hlookup, ?_, ?_⟩, hs.integer, hs.settled⟩
  · rw [hentity]
    exact hkind
  · rw [hentity]
    exact htype

namespace Check

variable {s t : Pass} {x : Operand} {ctx : Context} (pending : Pending)

/-- An operand is the type of a kind. -/
structure IsTitle (x : Operand) (k : Kind) : Prop where
  mode : x.mode = .type
  type : x.type = .basic k

theorem nameOperand_title {n : Ident} {id : EntityId} {f : ScopeId}
    (hlookup : s.store.arena.lookup ctx.scope n.name = some (id, f))
    (hkind : (s.store.arena.entity id).kind = .typeName) (htype : (s.store.arena.entity id).type = some (.basic k))
    (h : Gives (nameOperand (demandFrom pending) ctx (.name n) n) s x t) :
    s.Inspects t ∧ (IsTitle x k ∨ x.Rejected s t) := by
  unfold nameOperand at h
  split at h
  · exact ⟨(moves_fail rfl).ok h.run, .inr (rejected_fail h)⟩
  have h := h.readArena
  rw [hlookup] at h
  obtain ⟨⟨⟩, s₁, hrefer, h⟩ := h.bind
  obtain ⟨⟨⟩, s₂, hreached, h⟩ := h.bind
  have hinspects : s.Inspects s₂ :=
    Reports.trans (moves_refer.ok hrefer.run) (moves_markReached.ok hreached.run)
  obtain ⟨used, hentity⟩ := hinspects.marks.entities id
  dsimp only at hentity
  -- the entity has a type, so nothing is demanded
  obtain ⟨⟨⟩, s₃, hdemand, h⟩ := h.bind
  obtain rfl : s₂ = s₃ := by
    have hrun := hdemand.run
    unfold demandFrom at hrun
    replace hrun := rest_of_ok rfl hrun
    rw [hentity, htype] at hrun
    cases hrun
    rfl
  obtain ⟨y, s₃, hy, h⟩ := h.bind
  cases hy.run
  have h := h.readArena
  rw [hentity] at h
  simp only [hkind, htype, Option.getD_some] at h
  split at h
  · have hz := rejected_fail h
    exact ⟨hinspects.trans ((moves_fail rfl).ok h.run), .inr (hz.mono hinspects (.refl t) hz.mode)⟩
  · obtain ⟨rfl, rfl⟩ := h.of_pure
    exact ⟨hinspects, .inl ⟨rfl, rfl⟩⟩

/-- The name of a type of integers evaluates to that type, unless that is reported. -/
theorem expr_title (hs : s.store.arena.StandsFor ctx.scope callee k)
    (h : Gives (expr (demandFrom pending) ctx .value callee) s x t) :
    s.Inspects t ∧ (IsTitle x k ∨ x.Rejected s t) := by
  obtain ⟨n, e, f, hcallee, hlookup, hkind, htype⟩ := hs.found
  clear hs
  induction callee using Expr.induction generalizing x t with
  | h callee ih =>
  cases callee with
  | name m =>
    cases hcallee
    unfold expr at h
    obtain ⟨y, u, hname, h⟩ := h.bind
    obtain ⟨⟨⟩, u', hannotate, h⟩ := h.bind
    obtain ⟨rfl, rfl⟩ := h.of_pure
    obtain ⟨hinspects, hy⟩ := nameOperand_title pending hlookup hkind htype hname
    have hlast : u.Inspects u' := (moves_annotate _ _).ok hannotate.run
    refine ⟨hinspects.trans hlast, hy.imp_right fun hy => hy.mono (.refl s) hlast hy.mode⟩
  | paren m inner =>
    unfold expr at h
    obtain ⟨y, u, hinner, h⟩ := h.bind
    obtain ⟨⟨⟩, u', hannotate, h⟩ := h.bind
    obtain ⟨rfl, rfl⟩ := h.of_pure
    obtain ⟨hinspects, hy⟩ := ih inner (by simp) hinner hcallee
    have hlast : u.Inspects u' := (moves_annotate _ _).ok hannotate.run
    refine ⟨hinspects.trans hlast, ?_⟩
    rcases hy with hy | hy
    · exact .inl ⟨hy.mode, hy.type⟩
    · exact .inr (hy.mono (.refl s) hlast hy.mode)
  | _ => cases hcallee

/-- An operand is a constant with the exact value of an expression, in the range of its type. If nothing was converted
it is untyped, and the expression fits. -/
def Folds (e : Expr) (x : Operand) : Prop :=
  ∃ k v, x.IsInt k v ∧ e.Denotes v.toInt ∧ (e.IsUntyped → k = .untypedInt ∧ e.Fits)

theorem finishValue_gives {y : Operand} (h : Gives (finishValue .value e y) s x t) : y = x ∧ s.Inspects t := by
  have hinspects : s.Inspects t := moves_finishValue.ok h.run
  obtain ⟨⟨⟩, u, hannotate, h⟩ := h.bind
  exact ⟨h.of_pure.1, hinspects⟩

theorem finishValue_runs (e : Expr) (x : Operand) (s : Pass) :
    ∃ t, Gives (finishValue .value e x) s x t ∧ s.Inspects t := ⟨_, ⟨rfl⟩, Observes.annotate s _ _⟩

theorem folds_literal (n : Node) (v : Int128) : Folds (.literal n (.int v)) (literalOperand (.int v) n.id) := by
  have hfits : (Expr.literal n (.int v)).Fits := by
    refine .of_children (fun c hc => ?_) (.literal n v) fun _ _ _ _ heq => ?_
    · simp at hc
    · cases heq
  exact ⟨.untypedInt, v, ⟨rfl, rfl, rfl, rfl, rfl⟩, .literal n v, fun _ => ⟨rfl, hfits⟩⟩

theorem Folds.paren (h : Folds e x) (n : Node) : Folds (.paren n e) { x with expr := n.id } := by
  obtain ⟨k, v, hx, hv, huntyped⟩ := h
  refine ⟨k, v, { hx with }, .paren n hv, fun h => ?_⟩
  obtain ⟨hk, hfits⟩ := huntyped (h.child (by simp))
  refine ⟨hk, .of_children (fun c hc => ?_) (.paren n hv) fun _ _ _ _ heq => ?_⟩
  · obtain rfl : c = e := by simpa using hc
    exact hfits
  · cases heq

theorem negate_folds {r : Pass} (h : Folds e x ∨ x.Rejected r s) (hr : r.Inspects s) (hb : s.store.arena.HasBasics)
    (hz : Gives (unary (.unary n .negate e) .negate e x) s z t) : Folds (.unary n .negate e) z ∨ z.Rejected r t := by
  rcases h with ⟨k, v, hx, hv, huntyped⟩ | hx
  · rcases negate_exact hb hx hz with ⟨u, hu, heq⟩ | hz
    · have hdenotes : (Expr.unary n .negate e).Denotes u.toInt := heq ▸ .negate n hv
      refine .inl ⟨k, u, hu, hdenotes, fun h => ?_⟩
      obtain ⟨hk, hfits⟩ := huntyped (h.child (by simp))
      refine ⟨hk, .of_children (fun c hc => ?_) hdenotes fun _ _ _ _ heq => ?_⟩
      · obtain rfl : c = e := by simpa using hc
        exact hfits
      · cases heq
    · exact .inr (hz.mono hr (.refl t) hz.mode)
  · rw [unary, if_pos hx.isInvalid] at hz
    obtain ⟨rfl, rfl⟩ := hz.of_pure
    exact .inr ⟨hx.mode, hx.count⟩

/-- A division that has a result is none of those that are left out. -/
theorem divisors_of_exact {op : BinaryOp} {l r : Expr} {v w u : Int128} (hv : l.Denotes v.toInt)
    (hw : r.Denotes w.toInt) (hexact : op.integer? v.toInt w.toInt = some u.toInt)
    (hrem : ¬ (op = .rem ∧ v.toInt = -Int128.bound ∧ w.toInt = -1)) (hop : op.isDivision) :
    ¬ r.Denotes 0 ∧ ¬ (l.Denotes (-Int128.bound) ∧ r.Denotes (-1)) := by
  constructor
  · intro hzero
    rw [hw.unique hzero] at hexact
    cases op with
    | div => cases hexact
    | rem => cases hexact
    | _ => cases hop
  · rintro ⟨hleast, hone⟩
    have hv' := hv.unique hleast
    have hw' := hw.unique hone
    have hu := u.upper
    cases op with
    | div =>
      rw [hv', hw'] at hexact
      have hquotient : BinaryOp.div.integer? (-Int128.bound) (-1) = some Int128.bound := by decide
      rw [hquotient, Option.some.injEq] at hexact
      rw [← hexact] at hu
      exact absurd hu (by decide)
    | rem => exact hrem ⟨rfl, hv', hw'⟩
    | _ => cases hop

theorem binary_folds {q : Pass} {l r : Expr} {y : Operand} (hx : Folds l x ∨ x.Rejected q s)
    (hy : Folds r y ∨ y.Rejected q s) (hq : q.Inspects s) (hb : s.store.arena.HasBasics) {op : BinaryOp}
    (hop : op.isArithmetic) (hz : Gives (binary n.token op x y n.id) s z t) :
    Folds (.binary n op l r) z ∨ z.Rejected q t := by
  have hskip (hinvalid : (x.isInvalid || y.isInvalid) = true) : z = .invalid n.id ∧ s = t := by
    rw [binary, if_pos hinvalid] at hz
    obtain ⟨rfl, rfl⟩ := hz.of_pure
    exact ⟨rfl, rfl⟩
  rcases hx with ⟨k, v, hx, hv, huntyped⟩ | hx
  · rcases hy with ⟨j, w, hy, hw, huntyped'⟩ | hy
    · rcases binary_exact hb hop hx hy hz with ⟨m, u, hu, hsame, hexact, hrem⟩ | hz
      · have hdenotes : (Expr.binary n op l r).Denotes u.toInt := .binary n hv hw hexact
        refine .inl ⟨m, u, hu, hdenotes, fun h => ?_⟩
        obtain ⟨rfl, hl⟩ := huntyped (h.child (by simp))
        obtain ⟨rfl, hr⟩ := huntyped' (h.child (by simp))
        refine ⟨hsame rfl, .of_children (fun c hc => ?_) hdenotes ?_⟩
        · have hc : c = l ∨ c = r := by simpa using hc
          rcases hc with rfl | rfl
          · exact hl
          · exact hr
        · rintro n' op' l' r' heq hdivision
          cases heq
          exact divisors_of_exact hv hw hexact hrem hdivision
      · exact .inr (hz.mono hq (.refl t) hz.mode)
    · obtain ⟨rfl, rfl⟩ := hskip (by simp [hy.isInvalid])
      exact .inr ⟨rfl, hy.count⟩
  · obtain ⟨rfl, rfl⟩ := hskip (by simp [hx.isInvalid])
    exact .inr ⟨rfl, hx.count⟩

theorem convert_folds {r : Pass} {arg : Expr} (h : Folds arg x ∨ x.Rejected r s) (hr : r.Inspects s)
    (hb : s.store.arena.HasBasics) (hk : k.isInteger) (hsettled : k.isUntyped = false)
    (hz : Gives (convert (.call n callee [arg]) (.basic k) arg x) s z t) :
    Folds (.call n callee [arg]) z ∨ z.Rejected r t := by
  rcases h with ⟨l, v, hx, hv, -⟩ | hx
  · rcases convert_exact hb hk hsettled hx hz with hz | hz
    · exact .inl ⟨k, v, hz, .convert n callee hv, fun h => absurd (h _ .self) (by simp [Expr.isCall])⟩
    · exact .inr (hz.mono hr (.refl t) hz.mode)
  · have hz := hz.readArena
    simp only [hx.isInvalid, Bool.true_or, if_true] at hz
    obtain ⟨rfl, rfl⟩ := hz.of_pure
    exact .inr ⟨rfl, hx.count⟩

/-- Evaluating an expression of integers folds it, or reports an error. -/
theorem expr_folds (he : e.Integral names) (hb : s.store.arena.HasBasics)
    (hnames : ∀ c k, names c k → s.store.arena.StandsFor ctx.scope c k)
    (h : Gives (expr (demandFrom pending) ctx .value e) s x t) : s.Inspects t ∧ (Folds e x ∨ x.Rejected s t) := by
  induction he generalizing s x t with
  | literal n v =>
    unfold expr at h
    obtain ⟨rfl, hlast⟩ := finishValue_gives h
    exact ⟨hlast, .inl (folds_literal n v)⟩
  | paren n _ ih =>
    unfold expr at h
    obtain ⟨y, u, hinner, h⟩ := h.bind
    obtain ⟨⟨⟩, u', hannotate, h⟩ := h.bind
    obtain ⟨rfl, rfl⟩ := h.of_pure
    obtain ⟨hfirst, hy⟩ := ih hb hnames hinner
    have hlast : u.Inspects u' := (moves_annotate _ _).ok hannotate.run
    refine ⟨hfirst.trans hlast, ?_⟩
    rcases hy with hy | hy
    · exact .inl (hy.paren n)
    · exact .inr (hy.mono (.refl s) hlast hy.mode)
  | negate n _ ih =>
    unfold expr at h
    obtain ⟨y, u, hinner, h⟩ := h.bind
    obtain ⟨z, u', hunary, h⟩ := h.bind
    obtain ⟨rfl, hlast⟩ := finishValue_gives h
    obtain ⟨hfirst, hy⟩ := ih hb hnames hinner
    have hnext : u.Inspects u' := (moves_negate _ _ y).ok hunary.run
    have hz := negate_folds hy hfirst (hfirst.hasBasics hb) hunary
    exact ⟨hfirst.trans (hnext.trans hlast), hz.imp_right fun hz => hz.mono (.refl s) hlast hz.mode⟩
  | binary n hop _ _ ihl ihr =>
    unfold expr at h
    obtain ⟨y, u, hleft, h⟩ := h.bind
    obtain ⟨z, u', hright, h⟩ := h.bind
    obtain ⟨o, u'', hbinary, h⟩ := h.bind
    obtain ⟨rfl, hlast⟩ := finishValue_gives h
    obtain ⟨hfirst, hy⟩ := ihl hb hnames hleft
    obtain ⟨hsecond, hz⟩ := ihr (hfirst.hasBasics hb) (fun c k hc => hfirst.marks.standsFor (hnames c k hc)) hright
    have hboth := hfirst.trans hsecond
    have hnext : u'.Inspects u'' := moves_binary.ok hbinary.run
    have ho := binary_folds (hy.imp_right fun hy => hy.mono (.refl s) hsecond hy.mode)
      (hz.imp_right fun hz => hz.mono hfirst (.refl u') hz.mode) hboth (hboth.hasBasics hb) hop hbinary
    exact ⟨hboth.trans (hnext.trans hlast), ho.imp_right fun ho => ho.mono (.refl s) hlast ho.mode⟩
  | @convert n callee arg k hcallee _ ih =>
    have hstands := hnames callee k hcallee
    unfold expr at h
    obtain ⟨f, u, htitle, h⟩ := h.bind
    obtain ⟨hfirst, hf⟩ := expr_title pending hstands htitle
    have hnames' := fun c k hc => hfirst.marks.standsFor (hnames c k hc)
    rcases hf with hf | hf
    · rw [hf.mode, hf.type] at h
      dsimp only at h
      obtain ⟨z, u', hconversion, h⟩ := h.bind
      obtain ⟨rfl, hlast⟩ := finishValue_gives h
      unfold conversion at hconversion
      obtain ⟨y, u'', harg, hconvert⟩ := hconversion.bind
      obtain ⟨hsecond, hy⟩ := ih (hfirst.hasBasics hb) hnames' harg
      have hboth := hfirst.trans hsecond
      have hnext : u''.Inspects u' := moves_convert.ok hconvert.run
      have hz := convert_folds (hy.imp_right fun hy => hy.mono hfirst (.refl u'') hy.mode) hboth (hboth.hasBasics hb)
        hstands.integer hstands.settled hconvert
      exact ⟨hboth.trans (hnext.trans hlast), hz.imp_right fun hz => hz.mono (.refl s) hlast hz.mode⟩
    · -- the argument of a callee that was reported is only looked at
      rw [hf.mode] at h
      dsimp only at h
      obtain ⟨⟨⟩, r, hargs, h⟩ := h.bind
      obtain ⟨z, u', hinvalid, h⟩ := h.bind
      obtain ⟨rfl, rfl⟩ := hinvalid.of_pure
      obtain ⟨rfl, hlast⟩ := finishValue_gives h
      unfold exprs at hargs
      obtain ⟨y, r', harg, hrest⟩ := hargs.bind
      unfold exprs at hrest
      obtain ⟨-, rfl⟩ := hrest.of_pure
      obtain ⟨hsecond, -⟩ := ih (hfirst.hasBasics hb) hnames' harg
      exact ⟨hfirst.trans (hsecond.trans hlast), .inr (hf.mono (.refl s) (hsecond.trans hlast) rfl)⟩

/-- An untyped expression that fits is folded without a report. -/
theorem expr_fits (he : e.Integral names) (huntyped : e.IsUntyped) (hfits : e.Fits) (hb : s.store.arena.HasBasics) :
    ∃ x v t, Gives (expr (demandFrom pending) ctx .value e) s x t ∧ s.Inspects t ∧ x.IsInt .untypedInt v ∧
      e.Denotes v.toInt := by
  induction he generalizing s with
  | literal n v =>
    obtain ⟨t, hlast, hinspects⟩ := finishValue_runs (.literal n (.int v)) (literalOperand (.int v) n.id) s
    refine ⟨literalOperand (.int v) n.id, v, t, ⟨?_⟩, hinspects, ⟨rfl, rfl, rfl, rfl, rfl⟩, .literal n v⟩
    unfold expr
    exact hlast.run
  | @paren n e _ ih =>
    obtain ⟨x, v, t, hinner, hfirst, hx, hv⟩ := ih (huntyped.child (by simp))
      (hfits.child (by simp)) hb
    obtain ⟨t', hlast, hinspects⟩ := finishValue_runs (.paren n e) { x with expr := n.id } t
    refine ⟨{ x with expr := n.id }, v, t', ⟨?_⟩, hfirst.trans hinspects, { hx with },
      .paren n hv⟩
    unfold expr
    exact bind_eq_ok.mpr ⟨x, t, hinner.run, hlast.run⟩
  | @negate n e _ ih =>
    obtain ⟨x, v, t, hinner, hfirst, hx, hv⟩ := ih (huntyped.child (by simp))
      (hfits.child (by simp)) hb
    obtain ⟨u, hu⟩ := hfits.values _ .self
    have hunary : Gives (unary (.unary n .negate e) .negate e x) t (.constant (.basic .untypedInt) (.int u) n.id) t :=
      negate_fits (hfirst.hasBasics hb) hx (hu.unique (.negate n hv))
    obtain ⟨t', hlast, hinspects⟩ :=
      finishValue_runs (.unary n .negate e) (.constant (.basic .untypedInt) (.int u) n.id) t
    refine ⟨_, u, t', ⟨?_⟩, hfirst.trans hinspects, .constant rfl rfl n.id, hu⟩
    unfold expr
    exact bind_eq_ok.mpr ⟨x, t, hinner.run, bind_eq_ok.mpr ⟨_, t, hunary.run, hlast.run⟩⟩
  | @binary n op l r hop _ _ ihl ihr =>
    obtain ⟨x, v, t, hleft, hfirst, hx, hv⟩ := ihl (huntyped.child (by simp))
      (hfits.child (by simp)) hb
    obtain ⟨y, w, t', hright, hsecond, hy, hw⟩ := ihr (huntyped.child (by simp))
      (hfits.child (by simp)) (hfirst.hasBasics hb)
    have hboth := hfirst.trans hsecond
    obtain ⟨u, hu⟩ := hfits.values _ .self
    have hdivisors := hfits.divisors n op l r .self
    have hinteger : Constant.integers op v.toInt w.toInt = .ok (.int u) := by
      refine Constant.integers_eq_ok_iff.mpr ⟨u, rfl, ?_, ?_⟩
      · cases hu with
        | binary _ hl hr hexact => rwa [hv.unique hl, hw.unique hr]
      · rintro ⟨rfl, hleast, hone⟩
        exact (hdivisors rfl).2 ⟨hleast ▸ hv, hone ▸ hw⟩
    have hbinary : Gives (binary n.token op x y n.id) t' (.constant (.basic .untypedInt) (.int u) n.id) t' :=
      binary_fits (hboth.hasBasics hb) hop hx hy (fun hdivision hzero => (hdivisors hdivision).1 (hzero ▸ hw)) hinteger
    obtain ⟨t'', hlast, hinspects⟩ :=
      finishValue_runs (.binary n op l r) (.constant (.basic .untypedInt) (.int u) n.id) t'
    refine ⟨_, u, t'', ⟨?_⟩, hboth.trans hinspects, .constant rfl rfl n.id, hu⟩
    unfold expr
    refine bind_eq_ok.mpr ⟨x, t, hleft.run, bind_eq_ok.mpr ⟨y, t', hright.run, ?_⟩⟩
    exact bind_eq_ok.mpr ⟨_, t', hbinary.run, hlast.run⟩
  | convert => exact absurd (huntyped _ .self) (by simp [Expr.isCall])

end Check

/-! ## Programs -/

/-- Under its parentheses, an expression is a name that is found from a scope to be the universe's name of a type of
integers. -/
def Arena.NamesInteger (a : Arena) (scope : ScopeId) (callee : Expr) (k : Kind) : Prop :=
  ∃ n e f, callee.unparen = .name n ∧ a.lookup scope n.name = some (e, f) ∧
    Universe.store.arena.lookupLocal .global k.name = some e ∧ k.range?.isSome

/-- What is kept of every entity of the universe. -/
def Store.KeepsUniverse (s : Store) : Prop :=
  ∀ e x, Universe.store.arena.entity? e = some x → ∃ y, s.arena.entity? e = some y ∧ x.Keeps y

theorem Store.Step.entities {s t : Store} (h : s.Step t) {e : EntityId} {x : Entity} (hx : s.arena.entity? e = some x) :
    ∃ y, t.arena.entity? e = some y ∧ x.Keeps y := by
  cases h with
  | newType => exact (Grows.newType ..).toExtends.entities e x hx
  | newEntity => exact (Grows.newEntity ..).toExtends.entities e x hx
  | openScope => exact (Grows.openScope ..).toExtends.entities e x hx
  | bind => exact (Grows.bind ..).toExtends.entities e x hx
  | modifyEntity _ hkeeps => exact (Grows.modifyEntity s _ hkeeps).toExtends.entities e x hx
  | modifyType => exact ⟨x, by rwa [Store.entity?_modifyType], .refl x⟩
  | markUsed => exact (Grows.markUsed ..).toExtends.entities e x hx

namespace Universe

/-- The names of the types of integers, read off the universe in one evaluation. -/
theorem integers_spec : ∀ k ∈ Kind.all, k.range?.isSome → ∀ e, store.arena.lookupLocal .global k.name = some e →
    ∃ x, store.arena.entity? e = some x ∧ x.kind = .typeName ∧ x.type = some (.basic k) := by
  decide +kernel

theorem keepsUniverse : store.KeepsUniverse := fun _ x hx => ⟨x, hx, .refl x⟩

end Universe

theorem Kind.mem_all (k : Kind) : k ∈ Kind.all := by cases k <;> decide

example : ∀ k ∈ Kind.all, k.range?.isSome → (Universe.store.arena.lookupLocal .global k.name).isSome := by
  decide +kernel

/-- While the entities of the universe are kept, its names of types of integers stand for them. -/
theorem Store.KeepsUniverse.standsFor {s : Store} (h : s.KeepsUniverse) {scope : ScopeId}
    (hnames : s.arena.NamesInteger scope callee k) : s.arena.StandsFor scope callee k := by
  obtain ⟨n, e, f, hcallee, hlookup, hglobal, hrange⟩ := hnames
  obtain ⟨x, hx, hkind, htype⟩ := Universe.integers_spec k k.mem_all hrange e hglobal
  obtain ⟨y, hy, hkeeps⟩ := h e x hx
  have hentity : s.arena.entity e = y := Arena.entity_eq hy
  have hinteger : k.isInteger ∧ k.isUntyped = false := by
    revert hrange
    cases k <;> decide
  refine ⟨⟨n, e, f, hcallee, hlookup, ?_, ?_⟩, hinteger.1, hinteger.2⟩
  · have hsort := hkeeps.sort
    rw [hkind] at hsort
    rw [hentity]
    cases hy : y.kind <;> simp_all [EntityKind.name]
  · rw [hentity]
    exact hkeeps.type _ htype

namespace Program

/-- In every state of a program the entities of the universe are kept. -/
theorem throughout_keepsUniverse (config : Config) (files : List File) :
    Throughout config files fun s => s.Valid ∧ s.store.KeepsUniverse := by
  refine (throughout_valid config files).maintain (fun _ hs hstep e x hx => ?_) Universe.keepsUniverse
    fun id hpos hend e x hx => ?_
  · obtain ⟨y, hy, hxy⟩ := hs e x hx
    obtain ⟨z, hz, hyz⟩ := hstep.entities hy
    exact ⟨z, hz, hxy.trans hyz⟩
  · obtain ⟨y, hy, hxy⟩ := hend e x hx
    have hbelow : ∀ slab ∈ [(fileEnd config files).store.current], slab.id < id := by
      intro slab hslab
      rw [List.mem_singleton.mp hslab, (slabs_fileEnd config files).1]
      exact hpos
    rw [arena_fileEnd] at hy
    exact ⟨y, (Store.entity?_empty hbelow e).trans hy, hxy⟩

end Program

/-- Evaluating an expression in a state folds it. It gives a constant of the exact value, in the range of its type, or
an invalid operand after a report, and stops only past the cap on errors. If all operands are untyped, it gives a
constant exactly if the expression fits. -/
structure Pass.FoldsExactly (s : Pass) (pending : List (EntityId × Declaration)) (ctx : Context) (e : Expr) : Prop where
  result : ∀ x t, Check.expr (Check.demandFrom pending) ctx .value e s = .ok x t →
    (∃ k v, x.IsInt k v ∧ e.Denotes v.toInt) ∨ x.Rejected s t
  stop : ∀ stop t, Check.expr (Check.demandFrom pending) ctx .value e s = .error stop t → t.collector.isFatal
  untyped : e.IsUntyped →
    ((∃ x c t, Check.expr (Check.demandFrom pending) ctx .value e s = .ok x t ∧ x.mode = .constant ∧
      x.constant? = some c) ↔ e.Fits)

theorem Check.foldsExactly {s : Pass} (pending : Pending) {ctx : Context} (he : e.Integral names)
    (hb : s.store.arena.HasBasics) (hnames : ∀ c k, names c k → s.store.arena.StandsFor ctx.scope c k) :
    s.FoldsExactly pending ctx e where
  result x t hrun := by
    obtain ⟨-, hx⟩ := expr_folds pending he hb hnames ⟨hrun⟩
    exact hx.imp_left fun ⟨k, v, hx, hv, _⟩ => ⟨k, v, hx, hv⟩
  stop _ _ hrun := (moves_expr (R := LogGrows) (moves_demandFrom pending) ctx .value e).fatal hrun
  untyped huntyped := by
    constructor
    · rintro ⟨x, c, t, hrun, hc, -⟩
      obtain ⟨-, ⟨k, v, hx, hv, hfits⟩ | hx⟩ := expr_folds pending he hb hnames ⟨hrun⟩
      · exact (hfits huntyped).2
      · cases hx.mode.symm.trans hc
    · intro hfits
      obtain ⟨x, v, t, hrun, -, hx, -⟩ := expr_fits pending he huntyped hfits hb
      exact ⟨x, _, t, hrun.run, hx.mode, hx.value⟩

/-- In every state of a check, an expression of integer literals, arithmetic and conversions to the universe's types of
integers is folded exactly. -/
theorem integer_folding_exact (config : Config) (files : List File) : Program.Throughout config files fun s =>
    ∀ pending ctx e, e.Integral (s.store.arena.NamesInteger ctx.scope) → s.FoldsExactly pending ctx e := by
  refine (Program.throughout_keepsUniverse config files).imp fun s hs pending ctx e he => ?_
  obtain ⟨hvalid, huniverse⟩ := hs
  exact Check.foldsExactly pending he hvalid.intact.basics fun c k hc => huniverse.standsFor hc

end Statics
