import Mathlib.Algebra.BigOperators.Group.List.Basic
import Mathlib.Algebra.Ring.Nat
import RecordLang.Proofs.Typing.Acyclic

/-! # Records that make themselves are refused, and no others

A record needs another if the other is constructed anywhere in its initializers. The check follows
constructions from each record in turn. It follows each construction of the program at most once on
the way, so it ends, and it refuses the program exactly if some record needs itself in the end.
-/

namespace RecordLang

/-! ## Constructions in initializers -/

mutual

/-- A construction of the record named by `r` stands somewhere in the expression. -/
inductive Expr.Constructs (r : Ident) : Expr → Prop where
  | single {negated : Bool} {first : Term} {pos : Position} (h : first.Constructs r) :
      Expr.Constructs r (.single negated first pos)
  | first {negated : Bool} {first : Term} {op : BinOp} {opPos : Position} {rest : Expr}
      {pos : Position} (h : first.Constructs r) :
      Expr.Constructs r (.chain negated first op opPos rest pos)
  | rest {negated : Bool} {first : Term} {op : BinOp} {opPos : Position} {rest : Expr}
      {pos : Position} (h : rest.Constructs r) :
      Expr.Constructs r (.chain negated first op opPos rest pos)

inductive Term.Constructs (r : Ident) : Term → Prop where
  | construct : Term.Constructs r (.construct r)
  | arg {fn : Ident} {args : List Expr} {arg : Expr} (harg : arg ∈ args) (h : arg.Constructs r) :
      Term.Constructs r (.call fn args)
  | neg {operand : Expr} {pos : Position} (h : operand.Constructs r) :
      Term.Constructs r (.neg operand pos)
  | paren {inner : Expr} (h : inner.Constructs r) : Term.Constructs r (.paren inner)

end

variable {r : Ident}

mutual

theorem Expr.mem_constructions_iff (e : Expr) : r ∈ e.constructions ↔ e.Constructs r := by
  match e with
  | .single _ first _ =>
    rw [Expr.constructions, first.mem_constructions_iff]
    constructor
    · exact .single
    · intro h
      cases h with
      | single h => exact h
  | .chain _ first _ _ rest _ =>
    rw [Expr.constructions, List.mem_append, first.mem_constructions_iff,
      rest.mem_constructions_iff]
    constructor
    · rintro (h | h)
      · exact .first h
      · exact .rest h
    · intro h
      cases h with
      | first h => exact .inl h
      | rest h => exact .inr h

theorem Term.mem_constructions_iff (t : Term) : r ∈ t.constructions ↔ t.Constructs r := by
  match t with
  | .literal _ _ => exact ⟨nofun, nofun⟩
  | .construct name =>
    rw [Term.constructions, List.mem_singleton]
    constructor
    · rintro rfl
      exact .construct
    · rintro ⟨⟩
      rfl
  | .path _ => exact ⟨nofun, nofun⟩
  | .call _ args =>
    rw [Term.constructions, mem_argConstructions_iff args]
    constructor
    · rintro ⟨arg, harg, h⟩
      exact .arg harg h
    · intro h
      cases h with
      | arg harg h => exact ⟨_, harg, h⟩
  | .neg operand _ =>
    rw [Term.constructions, operand.mem_constructions_iff]
    constructor
    · exact .neg
    · intro h
      cases h with
      | neg h => exact h
  | .paren inner =>
    rw [Term.constructions, inner.mem_constructions_iff]
    constructor
    · exact .paren
    · intro h
      cases h with
      | paren h => exact h

theorem mem_argConstructions_iff (args : List Expr) :
    r ∈ argConstructions args ↔ ∃ arg ∈ args, arg.Constructs r := by
  match args with
  | [] => simp [argConstructions]
  | arg :: args =>
    rw [argConstructions, List.mem_append, arg.mem_constructions_iff, mem_argConstructions_iff args,
      List.exists_mem_cons_iff]

end

namespace Program

variable {p : Program} {root : String}

/-- The record named by `r` is constructed in an initializer of the record `a`. -/
def Constructs (p : Program) (a : String) (r : Ident) : Prop :=
  ∃ d ∈ p.records, d.name.text = a ∧ ∃ field ∈ d.fields, field.init.Constructs r

def Needs (p : Program) (a b : String) : Prop := ∃ r : Ident, r.text = b ∧ p.Constructs a r

theorem constructions_of_mem (hnd : (p.records.map (·.name.text)).Nodup) {d : RecordDecl}
    (hd : d ∈ p.records) : p.constructions d.name.text = d.constructions := by
  rw [constructions, find?_of_nodup hnd hd]

theorem mem_constructions_iff (hnd : (p.records.map (·.name.text)).Nodup) {a : String} :
    r ∈ p.constructions a ↔ p.Constructs a r := by
  constructor
  · intro h
    obtain ⟨d, hd, rfl⟩ := Makes.declared ⟨r, h, rfl⟩
    rw [constructions_of_mem hnd hd] at h
    obtain ⟨field, hfield, hr⟩ := List.mem_flatMap.mp h
    exact ⟨d, hd, rfl, field, hfield, field.init.mem_constructions_iff.mp hr⟩
  · rintro ⟨d, hd, rfl, field, hfield, hr⟩
    rw [constructions_of_mem hnd hd]
    exact List.mem_flatMap.mpr ⟨field, hfield, field.init.mem_constructions_iff.mpr hr⟩

theorem makes_eq_needs (hnd : (p.records.map (·.name.text)).Nodup) : p.Makes = p.Needs := by
  funext a b
  simp only [Makes, Needs, mem_constructions_iff hnd, and_comm]

/-! ## The search ends -/

/-- A search for a way back to a record: the records that it has come to, and the constructions that
it has still to follow, the next one first. -/
structure Search where
  seen : List String
  work : List Ident

namespace Search

def start (p : Program) (root : String) : Search := ⟨[root], (p.constructions root).reverse⟩

/-- One turn of the search, unless it is over: it has come back to `root`, or nothing is left. -/
def turn? (p : Program) (root : String) (s : Search) : Option Search :=
  match s.work with
  | [] => none
  | target :: rest =>
    if target.text = root then none
    else if target.text ∈ s.seen then some ⟨s.seen, rest⟩
    else some ⟨target.text :: s.seen, (p.constructions target.text).reverse ++ rest⟩

inductive Ends (p : Program) (root : String) : Nat → Search → Search → Prop where
  | over {s : Search} (h : s.turn? p root = none) : Ends p root 0 s s
  | turn {n : Nat} {s s₁ s' : Search} (h : s.turn? p root = some s₁) (hs : Ends p root n s₁ s') :
      Ends p root (n + 1) s s'

end Search

def constructionCount (p : Program) (names : List String) : Nat :=
  (names.map fun x => (p.constructions x).length).sum

theorem constructionCount_names (hnd : (p.records.map (·.name.text)).Nodup) :
    p.constructionCount (p.records.map (·.name.text)) =
      (p.records.flatMap RecordDecl.constructions).length := by
  rw [constructionCount, List.length_flatMap, List.map_map]
  congr 1
  refine List.map_congr_left fun d hd => ?_
  exact congrArg List.length (constructions_of_mem hnd hd)

theorem constructions_eq_nil {x : String} (hx : x ∉ p.records.map (·.name.text)) :
    p.constructions x = [] := by
  rw [List.eq_nil_iff_forall_not_mem]
  intro r hr
  obtain ⟨d, hd, hname⟩ := Makes.declared ⟨r, hr, rfl⟩
  exact hx (List.mem_map.mpr ⟨d, hd, hname⟩)

/-- The search takes no more turns than there are constructions, those in hand and those in the
records that it has not come to. -/
theorem exists_ends (p : Program) (root : String) (work : List Ident) {fresh seen : List String}
    (hnd : fresh.Nodup)
    (hfresh : ∀ x, x ∈ fresh ↔ x ∈ p.records.map (·.name.text) ∧ x ∉ seen) :
    ∃ n s, n ≤ work.length + p.constructionCount fresh ∧ Search.Ends p root n ⟨seen, work⟩ s ∧
      p.findConstruction? root fresh work = s.work.head? := by
  fun_induction findConstruction? p root fresh work generalizing seen with
  | case1 fresh => exact ⟨0, _, Nat.zero_le _, .over rfl, rfl⟩
  | case2 fresh target rest hroot =>
    exact ⟨0, _, Nat.zero_le _, .over (by simp [Search.turn?, hroot]), rfl⟩
  | case3 fresh target rest hroot hmem ih =>
    have hnew : target.text ∉ seen := ((hfresh _).mp hmem).2
    have hfresh' : ∀ x, x ∈ fresh.erase target.text ↔
        x ∈ p.records.map (·.name.text) ∧ x ∉ target.text :: seen := by
      intro x
      rw [hnd.mem_erase_iff, hfresh, List.mem_cons]
      tauto
    obtain ⟨n, s, hn, hends, hfound⟩ := ih (hnd.erase _) hfresh'
    refine ⟨n + 1, s, ?_, .turn (by simp [Search.turn?, hroot, hnew]) hends, hfound⟩
    have hcount := List.sum_map_erase (fun x => (p.constructions x).length) hmem
    simp only [constructionCount, List.length_append, List.length_reverse, List.length_cons]
      at hn ⊢
    omega
  | case4 fresh target rest hroot hmem ih =>
    by_cases hseen : target.text ∈ seen
    · obtain ⟨n, s, hn, hends, hfound⟩ := ih hnd hfresh
      refine ⟨n + 1, s, ?_, .turn (by simp [Search.turn?, hroot, hseen]) hends, hfound⟩
      rw [List.length_cons]
      omega
    · -- the search comes to a record that is not there, which has nothing to follow
      have hnone : target.text ∉ p.records.map (·.name.text) :=
        fun hdecl => hmem ((hfresh _).mpr ⟨hdecl, hseen⟩)
      have hfresh' : ∀ x, x ∈ fresh ↔
          x ∈ p.records.map (·.name.text) ∧ x ∉ target.text :: seen := by
        intro x
        rw [hfresh, List.mem_cons]
        constructor
        · rintro ⟨hx, hx'⟩
          exact ⟨hx, fun h => h.elim (fun heq => hnone (heq ▸ hx)) hx'⟩
        · rintro ⟨hx, hx'⟩
          exact ⟨hx, fun h => hx' (.inr h)⟩
      obtain ⟨n, s, hn, hends, hfound⟩ := ih hnd hfresh'
      refine ⟨n + 1, s, ?_, .turn ?_ hends, hfound⟩
      · rw [List.length_cons]
        omega
      · simp [Search.turn?, hroot, hseen, constructions_eq_nil hnone]

def Search.verdict (root : String) (s : Search) : Except TypeError Unit :=
  match s.work.head? with
  | some target => violated target.pos (.selfConstruction root)
  | none => .ok ()

theorem exists_ends_start (hnd : (p.records.map (·.name.text)).Nodup) {d : RecordDecl}
    (hd : d ∈ p.records) :
    ∃ n s, n ≤ (p.records.flatMap RecordDecl.constructions).length ∧
      Search.Ends p d.name.text n (.start p d.name.text) s ∧
      p.checkConstruction d = s.verdict d.name.text := by
  have hmem : d.name.text ∈ p.records.map (·.name.text) := List.mem_map.mpr ⟨d, hd, rfl⟩
  have hfresh : ∀ x, x ∈ (p.records.map (·.name.text)).erase d.name.text ↔
      x ∈ p.records.map (·.name.text) ∧ x ∉ [d.name.text] := by
    intro x
    rw [hnd.mem_erase_iff, List.mem_singleton, and_comm]
  obtain ⟨n, s, hn, hends, hfound⟩ := exists_ends p d.name.text
    (p.constructions d.name.text).reverse (hnd.erase d.name.text) hfresh
  refine ⟨n, s, Nat.le_trans hn (Nat.le_of_eq ?_), hends, ?_⟩
  · rw [List.length_reverse, ← constructionCount_names hnd]
    exact List.sum_map_erase (fun x => (p.constructions x).length) hmem
  · simp only [checkConstruction, hfound]
    rfl

/-! ## Refused programs -/

/-- The error names a record that needs itself, at a construction of it that is needed on the
way. -/
theorem forM_checkConstruction_eq_error (hnd : (p.records.map (·.name.text)).Nodup) {e : TypeError}
    (h : p.records.forM p.checkConstruction = .error e) :
    ∃ d ∈ p.records, ∃ (r : Ident) (a : String),
      e = ⟨some r.pos, .selfConstruction d.name.text⟩ ∧ r.text = d.name.text ∧
      Relation.ReflTransGen p.Needs d.name.text a ∧ p.Constructs a r := by
  obtain ⟨d, hd, he⟩ := forM_eq_error h
  obtain ⟨r, a, rfl, hr, ha, hmem⟩ := checkConstruction_eq_error he
  rw [makes_eq_needs hnd] at ha
  exact ⟨d, hd, r, a, rfl, hr, ha, (mem_constructions_iff hnd).mp hmem⟩

/-- If records have different names, then the search from each of them is over after no more turns
than there are constructions, and the program is refused exactly if some record needs itself,
directly or through others. -/
theorem constructor_cycles_are_refused_exactly (hnd : (p.records.map (·.name.text)).Nodup) :
    (∀ d ∈ p.records, ∃ n s, n ≤ (p.records.flatMap RecordDecl.constructions).length ∧
      Search.Ends p d.name.text n (.start p d.name.text) s ∧
      p.checkConstruction d = s.verdict d.name.text) ∧
    ((∃ e, p.records.forM p.checkConstruction = .error e) ↔
      ∃ d ∈ p.records, Relation.TransGen p.Needs d.name.text d.name.text) ∧
    ∀ e, p.records.forM p.checkConstruction = .error e →
      ∃ d ∈ p.records, ∃ (r : Ident) (a : String),
        e = ⟨some r.pos, .selfConstruction d.name.text⟩ ∧ r.text = d.name.text ∧
        Relation.ReflTransGen p.Needs d.name.text a ∧ p.Constructs a r := by
  refine ⟨fun d hd => exists_ends_start hnd hd, ⟨?_, ?_⟩,
    fun e he => forM_checkConstruction_eq_error hnd he⟩
  · rintro ⟨e, he⟩
    obtain ⟨d, hd, r, a, _, hr, ha, hmem⟩ := forM_checkConstruction_eq_error hnd he
    exact ⟨d, hd, .tail' ha ⟨r, hr, hmem⟩⟩
  · rintro ⟨d, hd, hself⟩
    rw [← makes_eq_needs hnd] at hself
    cases hall : p.records.forM p.checkConstruction with
    | error e => exact ⟨e, rfl⟩
    | ok u => exact absurd hself (not_makes_self hnd (forM_eq_ok.mp hall d hd))

/-- Three records that need each other in a ring, with constructions in an argument behind an
operator, under a sign and in parentheses, and one record that needs the ring. -/
def ring : Program where
  records :=
    [⟨⟨"Owner", default⟩, [⟨⟨"a", default⟩, none,
        .single false (.construct ⟨"A", default⟩) default⟩]⟩,
      ⟨⟨"A", default⟩, [⟨⟨"b", default⟩, none, .single false (.call ⟨"f", default⟩
        [.chain false (.literal .nil default) .eq default
          (.single false (.construct ⟨"B", default⟩) default) default]) default⟩]⟩,
      ⟨⟨"B", default⟩, [⟨⟨"c", default⟩, none,
        .single false (.neg (.single false (.construct ⟨"C", default⟩) default) default) default⟩]⟩,
      ⟨⟨"C", default⟩, [⟨⟨"a", default⟩, none,
        .single true (.paren (.single false (.construct ⟨"A", ⟨7, 9⟩⟩) default)) default⟩]⟩]
  funs := []

theorem ring_is_refused :
    ring.records.forM ring.checkConstruction = .error ⟨some ⟨7, 9⟩, .selfConstruction "A"⟩ ∧
      ∃ d ∈ ring.records, Relation.TransGen ring.Needs d.name.text d.name.text := by
  have hnd : (ring.records.map (·.name.text)).Nodup := by decide
  have h : ring.records.forM ring.checkConstruction =
      .error ⟨some ⟨7, 9⟩, .selfConstruction "A"⟩ := by decide +kernel
  obtain ⟨_, hiff, _⟩ := constructor_cycles_are_refused_exactly hnd
  exact ⟨h, hiff.mp ⟨_, h⟩⟩

end Program

end RecordLang
