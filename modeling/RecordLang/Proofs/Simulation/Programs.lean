import RecordLang.Proofs.Compile.Programs
import RecordLang.Proofs.Evaluation.Program
import RecordLang.Proofs.Simulation.Statements

/-! # Compiled programs follow their meaning

The routines of a compiled program do what its functions mean, and constructions do in place what
the making of records means. Both are shown together for all calls and constructions that nest less
than a given number deep.
-/

namespace RecordLang

open Machine Generator

variable {G : Ground} {d : Declarations} {c : Catalog} {k : Interp} {n bound : Nat} {r : Routine}
  {ls : Array Value} {cs : List Frame}

section Functions

theorem setSlot_size (ls : Array Value) (v : Value) : setSlot ls ls.size v = ls.push v := by
  apply Array.toList_inj.mp
  simp [setSlot, Array.toList_push]

/-- The prologue of a function moves the arguments into the first slots. -/
theorem prologue_reaches (ls : Array Value) (args : List Value) {pc : Nat} {w : World} {m : Machine}
    (hcode : r.Has pc ((List.range' ls.size args.length).map .store))
    (hat : At G (⟨r, ls, args, pc⟩ :: cs) w m) :
    ∃ m', Reaches m m' ∧ At G (⟨r, ls ++ args.toArray, [], pc + args.length⟩ :: cs) w m' := by
  induction args generalizing ls pc m with
  | nil => exact ⟨m, .refl m, by simpa using hat⟩
  | cons v args ih =>
    rw [List.length_cons, List.range'_succ, List.map_cons] at hcode
    obtain ⟨m₁, hstep, hat₁⟩ := hat.store hcode.head
    rw [setSlot_size] at hat₁
    have htail := hcode.tail
    rw [← Array.size_push v] at htail
    obtain ⟨m₂, hreach, hat₂⟩ := ih (ls.push v) htail hat₁
    refine ⟨m₂, .head hstep hreach, ?_⟩
    have hlocals : ls.push v ++ args.toArray = ls ++ (v :: args).toArray := by
      apply Array.toList_inj.mp
      simp
    rwa [hlocals, Nat.add_assoc, Nat.add_comm 1] at hat₂

theorem params_store {params : List Param} {args : List Value} {g : Generator} {env : Scopes Value}
    (hlen : args.length = params.length)
    (hargs : ∀ j v, args[j]? = some v → ls[g.nextSlot + j]? = some v)
    (hst : Stores ls g.slots env) :
    Stores ls (params.foldl (fun g p => g.declare p.name.text) g).slots
      ((params.zip args).foldl (fun env (p, v) => env.declare p.name.text v) env) := by
  induction params generalizing args g env with
  | nil => exact hst
  | cons p params ih =>
    cases args with
    | nil => cases hlen
    | cons v args =>
      apply ih (Nat.succ.inj hlen)
      · intro j u hj
        have h := hargs (j + 1) u hj
        rwa [Nat.add_comm j, ← Nat.add_assoc] at h
      · exact hst.declare (hargs 0 v rfl)

/-- A routine does what its function means, up to the `return` of its result. -/
theorem FunDecl.code_follows (hk : Backs G d k n) (hb : n ≤ bound) {f : FunDecl}
    (hcheck : f.check c = .ok ()) (hok : f.compile d = .ok r) {args : List Value}
    (hargs : args.length = f.params.length) {w : World} {m : Machine}
    (hat : At G (⟨r, #[], args, 0⟩ :: cs) w m) :
    Follows n m (f.eval k bound args w) fun v w m =>
      ∃ ls pc, r.code[pc]? = some .ret ∧ At G (⟨r, ls, [v], pc⟩ :: cs) w m := by
  obtain ⟨_, _, body, g, place, hbody, hplaced, hlinked⟩ := FunDecl.compile_eq_ok hok
  rw [FunDecl.row, List.append_assoc] at hplaced hlinked
  have hfit := Fitted.of_linked hplaced hlinked
  have hprologue := hfit.left.emits
  rw [FunDecl.prologue, List.range_eq_range', ← hargs] at hprologue
  obtain ⟨m₁, hreach, hat₁⟩ := prologue_reaches #[] args hprologue hat
  refine Follows.after hreach ?_
  have hstores : Stores args.toArray f.generator.slots (f.bindArgs args) :=
    params_store hargs (fun j v hj => by simpa using hj) (.cons .nil .nil)
  have hin := hfit.right
  have hsize : 0 + codeSize (emits f.prologue) = 0 + args.length := by
    rw [codeSize_emits, FunDecl.prologue, List.length_map, List.length_range, hargs]
  rw [hsize] at hin
  rw [Array.empty_append] at hat₁
  apply (generateStmts_follows hk hb f.body hcheck (f.generator_mirrors c) f.generator_sound hbody
    hin.left hstores hat₁).result.bind
  rintro flow w m ⟨heval, hland⟩
  cases flow with
  | returned v => exact .here hland
  | next env =>
    obtain ⟨ls, _, hat₂⟩ := hland
    have hepilogue := hin.right.emits
    rw [FunDecl.epilogue, evalStmts_next heval] at hepilogue
    obtain ⟨m₂, hstep, hat₃⟩ := hat₂.push hepilogue.head
    exact ⟨m₂, .single hstep, ls, _, hepilogue.tail.head, hat₃⟩

end Functions

section Constructions

/-- The first values of fields go into the record that is below them on the stack. -/
theorem fieldsCode_follows (hk : Backs G d k n) {slots : Scopes Nat} {nesting : Nat}
    {fields : List Binding} {code : Code} {owner : Value} {st : List Value} {pc : Nat} {w : World}
    {m : Machine}
    (hok : Declarations.fieldsCode (d.constructCode slots nesting) slots fields = .ok code)
    (hcode : r.Has pc code) (hat : At G (⟨r, ls, owner :: st, pc⟩ :: cs) w m) :
    Follows n m (initFields k owner fields w) fun _ w m =>
      At G (⟨r, ls, owner :: st, pc + code.length⟩ :: cs) w m := by
  induction fields generalizing code pc w m with
  | nil =>
    cases hok
    exact .here hat
  | cons field rest ih =>
    obtain ⟨init, hinit, hok⟩ := bind_eq_ok.mp hok
    obtain ⟨more, hmore, hok⟩ := bind_eq_ok.mp hok
    cases hok
    obtain ⟨m₁, hstep, hat₁⟩ := hat.dup hcode.head
    refine Follows.after (.single hstep) ?_
    have hin := hcode.tail
    have hnone : Shows ls slots [] := nofun
    apply (field.init.code_follows hk hnone hinit hin.left hat₁).bind
    intro v w m hat
    apply (hat.setField hin.right.head).bind
    intro _ w m hat
    have h := ih hmore hin.right.tail hat
    have hlen : pc + (.dup :: init ++ .setField field.name.text :: more).length =
        pc + 1 + init.length + 1 + more.length := by
      simp only [List.cons_append, List.length_cons, List.length_append]
      omega
    rw [hlen]
    exact h

end Constructions

structure Loaded (G : Ground) (p : Program) (c : Catalog) : Prop where
  declared : p.Declared c
  funs : ∀ f ∈ p.funs, f.check c = .ok ()
  routines : ∀ f ∈ p.funs, ∃ r, f.compile ⟨c, p.records⟩ = .ok r ∧
    G.routines.get? f.name.text = some r

variable {p : Program}

theorem Loaded.call_follows (h : Loaded G p c) (hk : Backs G ⟨c, p.records⟩ (p.interp n) n)
    {name : String} {args st : List Value} {pc : Nat} {w : World} {m : Machine}
    (hi : r.code[pc]? = some (.call name))
    (hat : At G (⟨r, ls, args.reverse ++ st, pc⟩ :: cs) w m) :
    Follows (n + 1) m ((p.interp (n + 1)).call name args w) fun v w m =>
      At G (⟨r, ls, v :: st, pc + 1⟩ :: cs) w m := by
  simp only [Program.interp]
  cases hf : p.funs.find? (·.name.text = name) with
  | none => trivial
  | some f =>
    have hmem := List.mem_of_find?_eq_some hf
    have hname : f.name.text = name := by simpa using List.find?_some hf
    obtain ⟨callee, hcompile, hget⟩ := h.routines f hmem
    obtain ⟨_, harity, _⟩ := FunDecl.compile_eq_ok hcompile
    simp only
    split
    next hlen =>
      obtain ⟨m₁, hstep, hat₁⟩ := hat.call hi (hname ▸ hget) (harity.trans hlen.symm)
      refine .step hstep ?_
      have hbody := FunDecl.code_follows hk (Nat.le_refl n) (h.funs f hmem) hcompile hlen hat₁
      apply hbody.before
      rintro v w m ⟨ls', pc', hret, hat₂⟩
      obtain ⟨m₂, hstep₂, hat₃⟩ := hat₂.ret hret
      exact ⟨m₂, .single hstep₂, hat₃⟩
    next => trivial

theorem Loaded.construct_follows (h : Loaded G p c) (hk : Backs G ⟨c, p.records⟩ (p.interp n) n)
    {slots : Scopes Nat} {nesting : Nat} {name : Ident} {code : Code} {st : List Value} {pc : Nat}
    {w : World} {m : Machine}
    (hok : Declarations.constructCode ⟨c, p.records⟩ slots nesting name = .ok code)
    (hcode : r.Has pc code) (hat : At G (⟨r, ls, st, pc⟩ :: cs) w m) :
    Follows (n + 1) m ((p.interp (n + 1)).construct name.text w) fun v w m =>
      At G (⟨r, ls, v :: st, pc + code.length⟩ :: cs) w m := by
  obtain ⟨fields, decl, less, more, hfields, hdecl, rfl, hmore, rfl⟩ := constructCode_eq_ok hok
  have hmem : decl ∈ p.records := List.mem_reverse.mp (List.mem_of_find?_eq_some hdecl)
  have hname : decl.name.text = name.text := by simpa using List.find?_some hdecl
  have hfind : p.records.find? (·.name.text = name.text) = some decl :=
    hname ▸ (h.declared.find_record hmem).1
  obtain ⟨fields', hfields', htyped⟩ := h.declared.fields decl hmem
  obtain rfl : fields = fields' := by
    rw [hname, hfields] at hfields'
    exact Option.some.inj hfields'
  obtain ⟨m₁, hstep, hat₁⟩ := hat.alloc hcode.head
  simp only [Program.interp, hfind]
  refine .step hstep ?_
  rw [htyped.names] at hat₁
  -- The world in which the fields are set is the one behind the allocation.
  apply (fieldsCode_follows hk hmore hcode.tail hat₁).bind
  intro _ w m hat
  rw [List.length_cons, Nat.add_comm more.length, ← Nat.add_assoc]
  exact .here hat

/-- Calls and constructions that nest less than `n` deep follow their meaning. -/
theorem Loaded.backs (h : Loaded G p c) (n : Nat) : Backs G ⟨c, p.records⟩ (p.interp n) n := by
  induction n with
  | zero => exact ⟨fun _ _ => ⟨_, .refl _⟩, fun _ _ _ => ⟨_, .refl _⟩⟩
  | succ n ih => exact ⟨h.call_follows ih, h.construct_follows ih⟩

end RecordLang
