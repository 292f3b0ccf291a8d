import Statics.Proofs.Constants.Programs
import Statics.Proofs.Literals.Statements

/-!
# Literals of accepted programs

Every pass of an accepted program keeps track of a literal, so what is noted of the literal in the end is its value,
as it was written or in the form that the noted type stores. The one exception is the right-hand side of a combined
assignment, whose node is noted with the result of the operator.
-/

namespace Statics

/-! ## Passes -/

section

variable {config : Config} {files : List File} {id : NodeId} {v : Literal} {s : Pass} {passes : List Pass}

theorem Pass.Tracks.start {store : Store} (hbasics : store.arena.HasBasics) (links : List (String × Pos))
    {collector : Collector} (hroom : collector.count ≤ collector.cap) :
    (Pass.start store links collector).Tracks id v where
  room h := absurd (of_decide_eq_true h) (Nat.not_lt.mpr hroom)
  kind := hbasics.kind?_basic v.kind
  decls _ hp := by cases hp
  queue _ hb := by cases hb
  notes _ hnote := by cases hnote

namespace Program.Runs

variable (h : Runs config files s passes) (htagged : ∀ file ∈ files, ∀ u ∈ file.decls, u.TaggedWithin id v)

include h htagged

/-- Every pass keeps track: the file level from the declarations of the files, and a job from the body that was
queued. -/
theorem tracks : ∀ r ∈ s :: passes, r.Tracks id v := by
  have hs : s.Tracks id v := (Check.tracks_fileLevel config htagged).carried h.fileLevel
    (.start Universe.titles.basics _ (Nat.zero_le _))
  refine List.forall_mem_cons.mpr ⟨hs, h.forall_jobs fun _ b _ hid hb ⟨links, collector, hcount, hclean⟩ => ?_⟩
  exact (Check.tracks_bodyAndNested config (hs.queue b hb)).carried hclean
    (.start (h.tallied.titles.empty hid).basics _ (by omega))

theorem renders {note : Note} (hnote : (id, note) ∈ (checkFiles config files).notes.types.entries) :
    note.Renders (checkFiles config files).arena v := by
  obtain ⟨r, hr, hnote⟩ := h.noter hnote
  exact ((h.tracks htagged r hr).notes note hnote).keep (h.extends_arena hr).keepsKinds

end Program.Runs

end

/-! ## Evaluated literals -/

/-- Checking a program goes through a state if one of its passes grows from there to its end. Every routine lets the
pass grow that it works on. -/
def Program.GoesThrough (config : Config) (files : List File) (t : Pass) : Prop :=
  ∃ s passes, Program.Runs config files s passes ∧ ∃ r ∈ s :: passes, t.Grows r

theorem Table.exists_get?_of_mem {α : Type} {t : Table α} {id : NodeId} {x : α} (h : (id, x) ∈ t.entries) :
    ∃ y, t.get? id = some y ∧ (id, y) ∈ t.entries := by
  obtain ⟨entries⟩ := t
  simp only [get?] at h ⊢
  induction entries with
  | nil => cases h
  | cons p rest ih =>
    obtain ⟨key, y⟩ := p
    by_cases hkey : id = key
    · subst hkey
      exact ⟨y, by simp, List.mem_cons_self⟩
    · have hrest : (id, x) ∈ rest := by
        rcases List.mem_cons.mp h with heq | hrest
        · exact absurd (congrArg Prod.fst heq) hkey
        · exact hrest
      obtain ⟨z, hz, hmem⟩ := ih hrest
      exact ⟨z, by rw [List.lookup_cons, beq_eq_false_iff_ne.mpr hkey, hz], List.mem_cons_of_mem _ hmem⟩

section

variable {config : Config} {files : List File} {n : Node} {v : Literal}

/-- Evaluating a literal notes its value. -/
theorem Check.notes_literal (resolve : Resolver) (ctx : Context) (s : Pass) :
    ((expr resolve ctx .value (.literal n v)).after s).notes.types =
      s.notes.types.insert n.id (literalOperand v n.id).note := by
  simp only [expr]
  rfl

/-- What evaluating a literal notes is among the notes of a program that goes through the evaluation. -/
theorem Program.GoesThrough.noted {resolve : Resolver} {ctx : Context} {s : Pass}
    (h : GoesThrough config files ((Check.expr resolve ctx .value (.literal n v)).after s)) :
    (n.id, (Check.literalOperand v n.id).note) ∈ (checkFiles config files).notes.types.entries := by
  obtain ⟨_, passes, hruns, r, hr, hgrows⟩ := h
  refine (hruns.noted hr).subset (hgrows.notes.subset ?_)
  rw [Check.notes_literal]
  exact List.mem_cons_self

/-- If that is among the notes of an accepted program, then the program goes through an evaluation of the literal. -/
theorem Program.Accepted.goesThrough (h : (checkFiles config files).Accepted) (resolve : Resolver) (ctx : Context)
    (hn : (n.id, (Check.literalOperand v n.id).note) ∈ (checkFiles config files).notes.types.entries) :
    ∃ s, GoesThrough config files ((Check.expr resolve ctx .value (.literal n v)).after s) := by
  obtain ⟨s, passes, hruns⟩ := h.runs
  obtain ⟨r, hr, hnoted⟩ := hruns.noter hn
  obtain ⟨later, earlier, hentries⟩ := List.append_of_mem hnoted
  -- The state before the evaluation has the notes that are older than its note.
  refine ⟨{ r with notes := { r.notes with types := ⟨earlier⟩ } }, s, passes, hruns, r, hr, .refl _,
    List.suffix_refl _, ?_⟩
  rw [Check.notes_literal, hentries]
  exact List.suffix_append later _

end

/-- In a built file every node with the identity of a literal is this literal, as far as statements are checked. -/
theorem File.Built.tagged {file : File} (h : file.Built) {id : NodeId} {v : Literal} (hliteral : file.Marks id (some v))
    (hplain : ∀ u ∈ Stmt.insideList file.decls, ∀ value, u.combined? = some value → value.id ≠ id) :
    ∀ u ∈ file.decls, u.TaggedWithin id v := by
  intro u hu w hw
  have hinside : w ∈ Stmt.insideList file.decls := Stmt.mem_insideList.mpr ⟨u, hu, hw⟩
  exact ⟨fun e he _ hmarks => h.marks_unique ⟨w, hinside, e, he, hmarks⟩ hliteral, hplain w hinside⟩

/-- A literal of a built file that is accepted, once it was evaluated, is noted with its value in the end, unless it
is the right-hand side of a combined assignment. -/
theorem literal_notes_survive {config : Config} {file : File} (hbuilt : file.Built)
    (haccepted : (checkFiles config [file]).Accepted) {n : Node} {v : Literal} (hliteral : file.Marks n.id (some v))
    (hplain : ∀ u ∈ Stmt.insideList file.decls, ∀ value, u.combined? = some value → value.id ≠ n.id)
    {resolve : Resolver} {ctx : Context} {s : Pass}
    (hevaluated : Program.GoesThrough config [file] ((Check.expr resolve ctx .value (.literal n v)).after s)) :
    ∃ note, (checkFiles config [file]).notes.types.get? n.id = some note ∧
      note.Renders (checkFiles config [file]).arena v := by
  obtain ⟨_, passes, hruns⟩ := haccepted.runs
  obtain ⟨note, hget, hnote⟩ := Table.exists_get?_of_mem hevaluated.noted
  refine ⟨note, hget, hruns.renders (fun _ hfile => ?_) hnote⟩
  obtain rfl := List.mem_singleton.mp hfile
  exact hbuilt.tagged hliteral hplain

theorem File.marks_of_literal {file : File} {id : NodeId} {v : Literal}
    (h : ∃ u ∈ Stmt.insideList file.decls, ∃ e ∈ u.exprs, e.id = id ∧ e.literal? = some v) :
    file.Marks id (some v) := by
  obtain ⟨u, hu, e, he, rfl, hv⟩ := h
  exact ⟨u, hu, e, he, hv ▸ .own e⟩

/-! A procedure with two literals. The initial value of the variable is noted again when it is converted to the type
of the variable, and keeps its value. The value that is added gives way to the sum. -/

namespace TwoLiterals

/-- The initial value. -/
def seven : Int128 := ⟨7, by decide, by decide⟩

/-- The value that is added. -/
def five : Int128 := ⟨5, by decide, by decide⟩

open Builder in
/-- The declaration `proc f() { var x: int = 7; x += 5 }`. -/
def decls : Build (List Stmt) := do
  let sig ← signature [] []
  let x ← vars ["x"] (some (← name "int")) [← int seven] false
  let add ← assign (some .add) [← name "x"] [← int five]
  return [← procDecl "f" sig (some (← block [x, add])) ⟨false, false, false⟩ none none]

/-- The file with this declaration. -/
def file : File := ⟨"m", (decls (.start "m")).1⟩

/-- The node of the initial value. -/
def initial : Node := ⟨2, ⟨"7", ⟨"m", 3, 1⟩, ⟨9, 1⟩⟩⟩

/-- The node of the value that is added. -/
def added : Node := ⟨5, ⟨"5", ⟨"m", 7, 1⟩, ⟨18, 1⟩⟩⟩

open Builder in
theorem built : file.Built := by
  have hsome {α : Type} {a : α} {p : α → Prop} (ha : p a) : ∀ b ∈ some a, p b := fun _ hb => Option.mem_some.mp hb ▸ ha
  have h : Session "m" _ _ := .call .start (.signature (List.forall_mem_nil _) (List.forall_mem_nil _))
  have h := (h.call (.name "int")).call (.int seven)
  have h := h.call (.vars ["x"] false (hsome (.tail _ (.head _))) (List.forall_mem_singleton.mpr (.head _)))
  have h := (h.call (.name "x")).call (.int five)
  have h := h.call (.assign (some .add) (List.forall_mem_singleton.mpr (.tail _ (.head _)))
    (List.forall_mem_singleton.mpr (.head _)))
  have h := h.call (.block (List.forall_mem_cons.mpr
    ⟨.tail _ (.tail _ (.tail _ (.head _))), List.forall_mem_singleton.mpr (.head _)⟩))
  have h := h.call (.procDecl "f" ⟨false, false, false⟩ none none
    (.tail _ (.tail _ (.tail _ (.tail _ (.tail _ (.tail _ (.tail _ (.head _)))))))) (hsome (.head _)))
  exact ⟨_, _, h, ⟨by decide +kernel, by decide +kernel, by decide +kernel⟩, List.forall_mem_singleton.mpr (.head _)⟩

/-- The program is accepted, both literals were evaluated, and that of the sum is noted as a value. -/
theorem spec : (checkFiles .standard [file]).Accepted ∧
    (initial.id, (Check.literalOperand (.int seven) initial.id).note) ∈
      (checkFiles .standard [file]).notes.types.entries ∧
    (added.id, (Check.literalOperand (.int five) added.id).note) ∈ (checkFiles .standard [file]).notes.types.entries ∧
    (checkFiles .standard [file]).notes.types.get? added.id = some ⟨.value, .basic .int, none⟩ ∧
    (∃ u ∈ Stmt.insideList file.decls, ∃ e ∈ u.exprs, e.id = initial.id ∧ e.literal? = some (.int seven)) ∧
    (∃ u ∈ Stmt.insideList file.decls, ∃ e ∈ u.exprs, e.id = added.id ∧ e.literal? = some (.int five)) ∧
    ∀ u ∈ Stmt.insideList file.decls, u.combined?.map Expr.id ≠ some initial.id := by
  decide +kernel

theorem plain (u : Stmt) (hu : u ∈ Stmt.insideList file.decls) (value : Expr) (hvalue : u.combined? = some value) :
    value.id ≠ initial.id := by
  obtain ⟨-, -, -, -, -, -, hplain⟩ := spec
  simpa [hvalue] using hplain u hu

end TwoLiterals

theorem literal_notes_survive_initial_value :
    (checkFiles .standard [TwoLiterals.file]).Accepted ∧
      ∃ note, (checkFiles .standard [TwoLiterals.file]).notes.types.get? TwoLiterals.initial.id = some note ∧
        note.Renders (checkFiles .standard [TwoLiterals.file]).arena (.int TwoLiterals.seven) := by
  obtain ⟨haccepted, hnoted, -, -, hmarks, -⟩ := TwoLiterals.spec
  obtain ⟨s, hs⟩ := haccepted.goesThrough Check.demand (.outer .standard .global) hnoted
  exact ⟨haccepted,
    literal_notes_survive TwoLiterals.built haccepted (File.marks_of_literal hmarks) TwoLiterals.plain hs⟩

/-- A literal of a built file was evaluated, and the file is accepted, but the literal is noted as a value in the
end. -/
theorem literal_note_overwritten :
    TwoLiterals.file.Built ∧ (checkFiles .standard [TwoLiterals.file]).Accepted ∧
      TwoLiterals.file.Marks TwoLiterals.added.id (some (.int TwoLiterals.five)) ∧
      (∃ resolve ctx s, Program.GoesThrough .standard [TwoLiterals.file]
        ((Check.expr resolve ctx .value (.literal TwoLiterals.added (.int TwoLiterals.five))).after s)) ∧
      ∃ note, (checkFiles .standard [TwoLiterals.file]).notes.types.get? TwoLiterals.added.id = some note ∧
        ¬ note.Renders (checkFiles .standard [TwoLiterals.file]).arena (.int TwoLiterals.five) := by
  obtain ⟨haccepted, -, hnoted, hget, -, hmarks, -⟩ := TwoLiterals.spec
  obtain ⟨s, hs⟩ := haccepted.goesThrough Check.demand (.outer .standard .global) hnoted
  refine ⟨TwoLiterals.built, haccepted, File.marks_of_literal hmarks, ⟨_, _, s, hs⟩, _, hget, ?_⟩
  rintro ⟨hmode, -⟩
  cases hmode

end Statics
