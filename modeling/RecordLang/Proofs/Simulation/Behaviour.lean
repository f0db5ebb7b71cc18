import RecordLang.Proofs.Machine.Limits
import RecordLang.Proofs.Simulation.Programs
import RecordLang.Proofs.Typing.Soundness

/-! # What compiled programs do

A checked program that has been compiled to balanced code ends as its meaning says: with the same
result, in the same world, and not at all if its meaning does not end. So it fails for dynamic
causes only, which stays true when limits are set on its run and when its output refuses requests.
-/

namespace RecordLang

theorem Cause.isDynamic_of_isLimit {c : Cause} (h : c.isLimit = true) : c.isDynamic = true := by
  cases c <;> first | rfl | cases h

namespace Machine

def entry (config : Config) (input : List UInt8) (output : Output) (b : Bytecode) (r : Routine) :
    Machine :=
  { config, input, output, routines := b.addTo [], frames := [{ routine := r }] }

theorem run_fresh {b : Bytecode} {r : Routine} (hb : b.checkBalance = .ok ())
    (hr : (b.addTo []).get? "main" = some r) (config : Config) (input : List UInt8)
    (output : Output) (fuel : Nat) :
    (fresh config input output).run fuel b =
      ((entry config input output b r).runFor fuel).map fun (exit, m) => m.conclude exit := by
  have hload : (fresh config input output).load b =
      .ok { config, input, output, routines := b.addTo [] } := by
    rw [load_fresh, hb]
    simp
  unfold run
  simp only [hload, callEntry, enter, hr]
  rfl

/-- The run of a machine ends as an evaluation does; it takes at least `n` steps if the evaluation
does not end. -/
def Matches (n : Nat) (m : Machine) : Run Value → Prop
  | .done v w => ∃ k m', m.runFor k = some (.finished v, m') ∧ m'.world = w
  | .failed c w => ∃ k e m', m.runFor k = some (.faulted e, m') ∧ e.cause = c ∧ m'.world = w
  | .stuck => False
  | .unfinished => m.runFor n = none

theorem Follows.matches {n : Nat} {m : Machine} {r : Run Value}
    (h : Follows n m r fun v w m => ∃ m', m.step = .stopped (.finished v) m' ∧ m'.world = w)
    (hr : r ≠ .stuck) : Matches n m r := by
  cases r with
  | done v w =>
    obtain ⟨m₁, ⟨k, hsteps⟩, m', hstop, hw⟩ := h
    exact ⟨k + 1, m', runFor_eq_some_iff.mpr ⟨k, m₁, Nat.lt_succ_self k, hsteps, hstop⟩, hw⟩
  | failed c w =>
    obtain ⟨m₁, ⟨k, hsteps⟩, e, m', hstop, hc, hw⟩ := h
    exact ⟨k + 1, e, m', runFor_eq_some_iff.mpr ⟨k, m₁, Nat.lt_succ_self k, hsteps, hstop⟩, hc, hw⟩
  | stuck => exact hr rfl
  | unfinished => exact runFor_eq_none_iff.mpr h

theorem Matches.of_runFor {n : Nat} {m m' : Machine} {r : Run Value} {exit : Exit}
    (h : Matches n m r) (hrun : m.runFor n = some (exit, m')) :
    (∃ v, exit = .finished v ∧ r = .done v m'.world) ∨
      ∃ e, exit = .faulted e ∧ r = .failed e.cause m'.world := by
  cases r with
  | done v w =>
    obtain ⟨k, m₁, hrun₁, rfl⟩ := h
    cases runFor_unique hrun hrun₁
    exact .inl ⟨v, rfl, rfl⟩
  | failed c w =>
    obtain ⟨k, e, m₁, hrun₁, rfl, rfl⟩ := h
    cases runFor_unique hrun hrun₁
    exact .inr ⟨e, rfl, rfl⟩
  | stuck => exact h.elim
  | unfinished =>
    rw [show m.runFor n = none from h] at hrun
    cases hrun

section Matching

variable {m : Machine} {r : Nat → Run Value} (h : ∀ n, Matches n m (r n))
include h

theorem matches_done_iff {v : Value} {w : World} :
    (∃ n, r n = .done v w) ↔
      ∃ k exit m', m.runFor k = some (exit, m') ∧ exit.value = .ok v ∧ m'.world = w := by
  constructor
  · rintro ⟨n, hn⟩
    have hmatch := h n
    rw [hn] at hmatch
    obtain ⟨k, m', hrun, hw⟩ := hmatch
    exact ⟨k, _, m', hrun, rfl, hw⟩
  · rintro ⟨k, exit, m', hrun, hexit, rfl⟩
    rcases (h k).of_runFor hrun with ⟨u, rfl, hdone⟩ | ⟨e, rfl, _⟩
    · cases hexit
      exact ⟨k, hdone⟩
    · cases hexit

theorem matches_failed_iff {c : Cause} {w : World} :
    (∃ n, r n = .failed c w) ↔
      ∃ k exit m' e, m.runFor k = some (exit, m') ∧ exit.value = .error e ∧ e.cause = c ∧
        m'.world = w := by
  constructor
  · rintro ⟨n, hn⟩
    have hmatch := h n
    rw [hn] at hmatch
    obtain ⟨k, e, m', hrun, hc, hw⟩ := hmatch
    exact ⟨k, _, m', e, hrun, rfl, hc, hw⟩
  · rintro ⟨k, exit, m', e, hrun, hexit, rfl, rfl⟩
    rcases (h k).of_runFor hrun with ⟨v, rfl, _⟩ | ⟨e', rfl, hfailed⟩
    · cases hexit
    · cases hexit
      exact ⟨k, hfailed⟩

theorem matches_unfinished_iff : (∀ n, r n = .unfinished) ↔ ∀ k, m.runFor k = none := by
  constructor
  · intro hr k
    have hmatch := h k
    rw [hr] at hmatch
    exact hmatch
  · intro hnone n
    have hmatch := h n
    cases hr : r n with
    | done v w =>
      rw [hr] at hmatch
      obtain ⟨k, m', hrun, _⟩ := hmatch
      rw [hnone] at hrun
      cases hrun
    | failed c w =>
      rw [hr] at hmatch
      obtain ⟨k, e, m', hrun, _⟩ := hmatch
      rw [hnone] at hrun
      cases hrun
    | stuck =>
      rw [hr] at hmatch
      exact hmatch.elim
    | unfinished => rfl

end Matching

end Machine

def World.flushed (w : World) : World := { w with output := w.output.tick }

theorem World.flushed_inj {w w' : World} (h : w.flushed = w'.flushed) : w = w' := by
  obtain ⟨heap, input, text, requests, refusal⟩ := w
  obtain ⟨heap', input', text', requests', refusal'⟩ := w'
  simp only [flushed, Output.tick, mk.injEq, Output.mk.injEq, Nat.add_right_cancel_iff] at h
  simp only [mk.injEq, Output.mk.injEq]
  exact h

namespace Machine

variable {b : Bytecode} {r : Routine}

theorem run_fresh_of_accepting (hb : b.checkBalance = .ok ())
    (hr : (b.addTo []).get? "main" = some r) (config : Config) (input : List UInt8)
    {output : Output} (h : ∀ n r, output.refusal n r = none) (fuel : Nat) :
    (fresh config input output).run fuel b =
      ((entry config input output b r).runFor fuel).map fun (exit, m) =>
        (exit.value, { m with output := m.output.tick }) := by
  rw [run_fresh hb hr]
  cases hrun : (entry config input output b r).runFor fuel with
  | none => rfl
  | some x =>
    obtain ⟨exit, m⟩ := x
    have hm : ∀ n r, m.output.refusal n r = none := by
      rw [(runFor_sameSetting hrun).refusal]
      exact h
    simp only [Option.map_some, conclude_of_accepting hm]

/-- With an output that refuses nothing, a run ends as its steps do, with a flush behind them. -/
theorem run_fresh_eq_some_iff (hb : b.checkBalance = .ok ())
    (hr : (b.addTo []).get? "main" = some r) (config : Config) (input : List UInt8)
    {output : Output} (h : ∀ n r, output.refusal n r = none) (fuel : Nat)
    (result : Except Fault Value) (w : World) :
    (∃ m, (fresh config input output).run fuel b = some (result, m) ∧ m.world = w.flushed) ↔
      ∃ exit m, (entry config input output b r).runFor fuel = some (exit, m) ∧
        exit.value = result ∧ m.world = w := by
  rw [run_fresh_of_accepting hb hr config input h]
  constructor
  · rintro ⟨m, hrun, hw⟩
    obtain ⟨⟨exit, m'⟩, hsteps, heq⟩ := Option.map_eq_some_iff.mp hrun
    obtain ⟨hexit, rfl⟩ := Prod.mk.inj heq
    exact ⟨exit, m', hsteps, hexit, World.flushed_inj hw⟩
  · rintro ⟨exit, m, hrun, rfl, rfl⟩
    exact ⟨{ m with output := m.output.tick }, by rw [hrun]; rfl, rfl⟩

end Machine

open Machine

namespace Program

variable {p : Program} {c : Catalog} {b : Bytecode}

theorem entry_matches (hcheck : p.check = .ok c) (hcompile : p.compile c = .ok b)
    (hb : b.checkBalance = .ok ()) :
    ∃ r, (b.addTo []).get? "main" = some r ∧
      ∀ (verify : Bool) (input : List UInt8) (output : Output) (n : Nat),
        (entry { verify } input output b r).Matches n (p.eval (n + 1) ⟨{}, input, output⟩) := by
  obtain ⟨hp, _, ⟨sig, hmain, hparams, _⟩, hfuns⟩ := check_eq_ok hcheck
  obtain ⟨f, hf, hname, rfl⟩ := hp.fun?_eq_some_iff.mp hmain
  obtain ⟨r, hr, hget⟩ := compile_eq_ok hp hcompile hf
  rw [hname] at hget
  refine ⟨r, hget, ?_⟩
  intro verify input output n
  obtain ⟨depth, hlabelled, _⟩ := Bytecode.exists_labelled hb
  let G : Ground := ⟨b.addTo [], arities b, depth, hlabelled⟩
  have hloaded : Loaded G p c := ⟨hp, hfuns, fun f hf => compile_eq_ok hp hcompile hf⟩
  have hat : At G [⟨r, #[], [], 0⟩] ⟨{}, input, output⟩ (entry { verify } input output b r) := by
    refine ⟨⟨verify, 0, rfl⟩, rfl, ?_⟩
    intro g hg
    obtain rfl := List.mem_singleton.mp hg
    exact ⟨⟨"main", hget⟩, _, (hlabelled.labelling _ r hget).start⟩
  have hnone : f.params = [] := List.map_eq_nil_iff.mp hparams
  have hsound := eval_sound hcheck (n + 1) ⟨{}, input, output⟩ (.empty c)
  have heval : p.eval (n + 1) = f.eval (p.interp n) n [] := by
    simp only [Program.eval, interp, ← hname, hp.find_fun hf, hnone, List.length_nil, if_true]
  rw [heval] at hsound ⊢
  have hargs : ([] : List Value).length = f.params.length := by
    rw [hnone]
    rfl
  have hfollows := FunDecl.code_follows (hloaded.backs n) (Nat.le_refl n) (hfuns f hf) hr hargs hat
  refine (hfollows.before ?_).matches ?_
  · rintro v w m ⟨ls, pc, hi, hat⟩
    exact ⟨m, .refl m, hat.finish hi⟩
  · intro hstuck
    rw [hstuck] at hsound
    exact hsound

theorem exists_eval_iff {w : World} {r : Run Value} (hr : r ≠ .unfinished) :
    (∃ n, p.eval n w = r) ↔ ∃ n, p.eval (n + 1) w = r := by
  constructor
  · rintro ⟨n, hn⟩
    cases n with
    | zero => exact absurd hn.symm hr
    | succ n => exact ⟨n, hn⟩
  · rintro ⟨n, hn⟩
    exact ⟨n + 1, hn⟩

/-- A checked program that has been compiled to balanced code does, without limits and with an
output that refuses nothing, what its tree means: it ends with the same result in the same world, or
fails for the same cause in the same world, or does not end. -/
theorem compiled_code_does_what_the_tree_means (hcheck : p.check = .ok c)
    (hcompile : p.compile c = .ok b) (hb : b.checkBalance = .ok ()) (verify : Bool)
    (input : List UInt8) (output : Output) (haccepts : ∀ n r, output.refusal n r = none) :
    (∀ v w, (∃ n, p.eval n ⟨{}, input, output⟩ = .done v w) ↔
      ∃ fuel m, (fresh { verify } input output).run fuel b = some (.ok v, m) ∧
        m.world = w.flushed) ∧
    (∀ cause w, (∃ n, p.eval n ⟨{}, input, output⟩ = .failed cause w) ↔
      ∃ fuel e m, (fresh { verify } input output).run fuel b = some (.error e, m) ∧
        e.cause = cause ∧ m.world = w.flushed) ∧
    ((∀ n, p.eval n ⟨{}, input, output⟩ = .unfinished) ↔
      ∀ fuel, (fresh { verify } input output).run fuel b = none) ∧
    ∀ n, p.eval n ⟨{}, input, output⟩ ≠ .stuck := by
  obtain ⟨r, hr, hmatches⟩ := entry_matches hcheck hcompile hb
  replace hmatches := hmatches verify input output
  have hends := run_fresh_eq_some_iff hb hr { verify } input haccepts
  refine ⟨?_, ?_, ?_, ?_⟩
  · intro v w
    refine (exists_eval_iff (r := .done v w) nofun).trans ((matches_done_iff hmatches).trans ?_)
    exact exists_congr fun fuel => (hends fuel (.ok v) w).symm
  · intro cause w
    refine (exists_eval_iff (r := .failed cause w) nofun).trans
      ((matches_failed_iff hmatches).trans ?_)
    constructor
    · rintro ⟨fuel, exit, m', e, hrun, hexit, hc, hw⟩
      obtain ⟨m, hrun, hw⟩ := (hends fuel (.error e) w).mpr ⟨exit, m', hrun, hexit, hw⟩
      exact ⟨fuel, e, m, hrun, hc, hw⟩
    · rintro ⟨fuel, e, m, hrun, hc, hw⟩
      obtain ⟨exit, m', hrun, hexit, hw⟩ := (hends fuel (.error e) w).mp ⟨m, hrun, hw⟩
      exact ⟨fuel, exit, m', e, hrun, hexit, hc, hw⟩
  · have hnone : (∀ n, p.eval n ⟨{}, input, output⟩ = .unfinished) ↔
        ∀ n, p.eval (n + 1) ⟨{}, input, output⟩ = .unfinished :=
      ⟨fun h n => h (n + 1), fun h n => by cases n with | zero => rfl | succ n => exact h n⟩
    refine hnone.trans ((matches_unfinished_iff hmatches).trans (forall_congr' fun fuel => ?_))
    rw [run_fresh_of_accepting hb hr { verify } input haccepts, Option.map_eq_none_iff]
  · intro n hn
    cases n with
    | zero => cases hn
    | succ n =>
      have hmatch := hmatches n
      rw [hn] at hmatch
      exact hmatch

/-- Prints the product of the numbers up to the one that it reads, which it keeps in a record. -/
def product : Program where
  records := [⟨name "Cell", [⟨name "n", none, intExpr 1⟩]⟩]
  funs :=
    [⟨⟨.void, default⟩, name "show", [⟨⟨.int, default⟩, name "n"⟩],
        [.call (name "print") [pathExpr ["n"]]]⟩,
      ⟨⟨.void, default⟩, name "main", [],
        [.declare ⟨name "cell", none, .single false (.construct (name "Cell")) default⟩,
          .declare ⟨name "top", none, callExpr "stoi" [callExpr "read" []]⟩,
          .count (name "i") (intExpr 1) .upto (pathExpr ["top"])
            [.assign [name "cell", name "n"]
              (.chain false (.path [name "cell", name "n"]) .mul default (pathExpr ["i"]) default)],
          .call (name "show") [pathExpr ["cell", "n"]]]⟩]

def productCatalog : Catalog :=
  ⟨[("Cell", [("n", .int)])], [("show", ⟨[("n", .int)], .void⟩), ("main", ⟨[], .void⟩)]⟩

def productCode : Bytecode :=
  [⟨"show", 1, #[.store 0, .load 0, .write, .push .nil, .pop, .push .nil, .ret]⟩,
    ⟨"main", 0, #[.alloc ["n"], .dup, .push (.int 1), .setField "n", .store 0, .read, .toInt,
      .store 1, .push (.int 1), .store 2, .load 2, .load 1, .binary .le, .jumpIfFalse 26, .load 0,
      .getField "n", .load 2, .binary .mul, .load 0, .swap, .setField "n", .load 2, .push (.int 1),
      .binary .add, .store 2, .jump 10, .load 0, .getField "n", .call "show", .pop, .push .nil,
      .ret]⟩]

theorem product_of_four_does_what_its_tree_means :
    product.check = .ok productCatalog ∧ product.compile productCatalog = .ok productCode ∧
    productCode.checkBalance = .ok () ∧
    ∃ fuel m, (fresh {} [52, 10] {}).run fuel productCode = some (.ok .nil, m) ∧
      m.output.text = "24" := by
  have hcheck : product.check = .ok productCatalog := by decide +kernel
  have hcompile : product.compile productCatalog = .ok productCode := by decide +kernel
  have hb : productCode.checkBalance = .ok () := by decide +kernel
  have heval : product.eval 9 ⟨{}, [52, 10], {}⟩ =
      .done .nil ⟨⟨#[some [("n", .int 24)]]⟩, [], ⟨"24", 2, fun _ _ => none⟩⟩ := by rfl
  obtain ⟨hdone, _⟩ := compiled_code_does_what_the_tree_means hcheck hcompile hb true [52, 10] {}
    fun _ _ => rfl
  obtain ⟨fuel, m, hrun, hw⟩ := (hdone _ _).mp ⟨9, heval⟩
  exact ⟨hcheck, hcompile, hb, fuel, m, hrun, congrArg (fun w => w.output.text) hw⟩

theorem conclude_eq_error {m m' : Machine} {exit : Exit} {e : Fault}
    (h : m.conclude exit = (.error e, m')) :
    exit.value = .error e ∨ ∃ reason, e.cause = .io reason := by
  unfold conclude Machine.flush at h
  cases hflush : m.output.flush with
  | mk refusal output =>
    cases refusal with
    | none =>
      simp only [hflush] at h
      exact .inl (Prod.mk.inj h).1
    | some reason =>
      simp only [hflush] at h
      obtain rfl := Except.error.inj (Prod.mk.inj h).1
      exact .inr ⟨reason, rfl⟩

/-- Whatever limits are set and whatever the output refuses, a checked program that has been
compiled to balanced code fails for dynamic causes only. -/
theorem checked_program_fails_for_dynamic_causes_only (hcheck : p.check = .ok c)
    (hcompile : p.compile c = .ok b) (hb : b.checkBalance = .ok ()) (config : Config)
    (input : List UInt8) (output : Output) (fuel : Nat) (e : Fault) (m : Machine)
    (hrun : (fresh config input output).run fuel b = some (.error e, m)) :
    e.cause.isDynamic = true := by
  obtain ⟨r, hr, hmatches⟩ := entry_matches hcheck hcompile hb
  rw [run_fresh hb hr] at hrun
  obtain ⟨⟨exit, m'⟩, hsteps, hconclude⟩ := Option.map_eq_some_iff.mp hrun
  rcases conclude_eq_error hconclude with hexit | ⟨reason, hio⟩
  · rcases runFor_unlimited hsteps with ⟨e', rfl, hlimit⟩ | hsteps'
    · cases hexit
      exact Cause.isDynamic_of_isLimit hlimit
    · have hsound := eval_sound hcheck (fuel + 1) ⟨{}, input, output⟩ (.empty c)
      rcases (hmatches config.verify input output fuel).of_runFor hsteps' with
        ⟨v, rfl, _⟩ | ⟨e', rfl, hfailed⟩
      · cases hexit
      · cases hexit
        rw [hfailed] at hsound
        exact hsound
  · rw [hio]
    rfl

theorem product_of_nothing_fails_for_a_dynamic_cause :
    product.check = .ok productCatalog ∧ product.compile productCatalog = .ok productCode ∧
    productCode.checkBalance = .ok () ∧
    ∃ e m, (fresh { maxSteps := some 100 } [10] {}).run 100 productCode = some (.error e, m) ∧
      e.cause.isDynamic = true := by
  have hcheck : product.check = .ok productCatalog := by decide +kernel
  have hcompile : product.compile productCatalog = .ok productCode := by decide +kernel
  have hb : productCode.checkBalance = .ok () := by decide +kernel
  have hrun : ∃ e m, (fresh { maxSteps := some 100 } [10] {}).run 100 productCode =
      some (.error e, m) := by
    rw [run_fresh hb rfl]
    exact ⟨_, _, rfl⟩
  obtain ⟨e, m, hrun⟩ := hrun
  exact ⟨hcheck, hcompile, hb, e, m, hrun,
    checked_program_fails_for_dynamic_causes_only hcheck hcompile hb _ _ _ _ e m hrun⟩

end Program

end RecordLang
