import RecordLang.Proofs.Assembly.Linking
import RecordLang.Proofs.Compile.Slots
import RecordLang.Proofs.Simulation.Expressions

/-! # Code of statements follows their meaning

Between statements the stack of a frame is empty, and each variable has its value in its slot. Code
that has been linked goes from there to the end of the statement, or to a `return`.
-/

namespace RecordLang

open Machine Generator

/-- The directives are those of the routine from the index `pc` on, and their labels are placed. -/
def Fitted (place : Nat → Nat) (r : Routine) (pc : Nat) (ds : List Directive) : Prop :=
  Placed place pc ds ∧ r.Has pc (linked place ds)

theorem Fitted.of_linked {place : Nat → Nat} {r : Routine} {ds : List Directive}
    (hplaced : Placed place 0 ds) (hlinked : r.code.toList = linked place ds) :
    Fitted place r 0 ds := by
  refine ⟨hplaced, ?_⟩
  intro j i hj
  rw [← hlinked, Array.getElem?_toList] at hj
  rwa [Nat.zero_add]

@[simp]
theorem codeSize_emits (code : Code) : codeSize (emits code) = code.length := by
  induction code with
  | nil => rfl
  | cons i code ih =>
    rw [List.length_cons, ← ih]
    exact Nat.add_comm 1 _

theorem linked_emits (place : Nat → Nat) (code : Code) : linked place (emits code) = code := by
  induction code with
  | nil => rfl
  | cons i code ih => exact congrArg (i :: ·) ih

namespace Fitted

variable {place : Nat → Nat} {r : Routine} {pc l : Nat} {ds ds' : List Directive} {code : Code}

theorem left (h : Fitted place r pc (ds ++ ds')) : Fitted place r pc ds := by
  obtain ⟨hp, hc⟩ := h
  rw [linked_append] at hc
  exact ⟨(placed_append.mp hp).1, hc.left⟩

theorem right (h : Fitted place r pc (ds ++ ds')) : Fitted place r (pc + codeSize ds) ds' := by
  obtain ⟨hp, hc⟩ := h
  rw [linked_append] at hc
  refine ⟨(placed_append.mp hp).2, ?_⟩
  rw [← length_linked place ds]
  exact hc.right

theorem emits (h : Fitted place r pc (emits code)) : r.Has pc code := by
  have := h.2
  rwa [linked_emits] at this

theorem newLabel (h : Fitted place r pc (.newLabel :: ds)) : Fitted place r pc ds :=
  ⟨h.1.2, h.2⟩

theorem bind (h : Fitted place r pc (.bind l :: ds)) : place l = pc ∧ Fitted place r pc ds :=
  ⟨h.1.1 l rfl, h.1.2, h.2⟩

theorem jump (h : Fitted place r pc (.jump l :: ds)) :
    r.code[pc]? = some (.jump (place l)) ∧ Fitted place r (pc + 1) ds :=
  ⟨h.2.head, h.1.2, h.2.tail⟩

theorem jumpIfFalse (h : Fitted place r pc (.jumpIfFalse l :: ds)) :
    r.code[pc]? = some (.jumpIfFalse (place l)) ∧ Fitted place r (pc + 1) ds :=
  ⟨h.2.head, h.1.2, h.2.tail⟩

/-- The parts of a counted loop. The test begins at `test`, and the body at `entrance`. -/
theorem count {startCode stopCode : Code} {inner : List Directive} {slot : Nat}
    {direction : Direction}
    (h : Fitted place r pc (Directive.newLabel :: Directive.newLabel ::
      RecordLang.emits (startCode ++ [Instruction.store slot]) ++ Directive.bind l ::
        RecordLang.emits (Instruction.load slot :: stopCode ++
          [Instruction.binary direction.test]) ++
        Directive.jumpIfFalse (l + 1) :: inner ++ RecordLang.emits [.load slot, .push (.int 1),
          .binary direction.step, .store slot] ++ [Directive.jump l, .bind (l + 1)])) :
    ∃ test entrance, test = pc + startCode.length + 1 ∧
      entrance = test + 1 + stopCode.length + 1 + 1 ∧
      r.Has pc (startCode ++ [Instruction.store slot]) ∧
      r.Has test (Instruction.load slot :: stopCode ++ [Instruction.binary direction.test]) ∧
      r.code[test + 1 + stopCode.length + 1]? = some (.jumpIfFalse (place (l + 1))) ∧
      Fitted place r entrance inner ∧
      r.Has (entrance + codeSize inner) [.load slot, .push (.int 1), .binary direction.step,
        .store slot, .jump test] ∧
      place (l + 1) = entrance + codeSize inner + 5 := by
  have hin : Fitted place r pc (RecordLang.emits (startCode ++ [Instruction.store slot]) ++
      (Directive.bind l :: (RecordLang.emits (Instruction.load slot :: stopCode ++
          [Instruction.binary direction.test]) ++
        (Directive.jumpIfFalse (l + 1) :: (inner ++ (RecordLang.emits [.load slot, .push (.int 1),
          .binary direction.step, .store slot] ++ [Directive.jump l, .bind (l + 1)])))))) := by
    simpa using h.newLabel.newLabel
  have hstart := hin.left.emits
  obtain ⟨htop, hin⟩ := hin.right.bind
  rw [codeSize_emits, List.length_append, List.length_singleton, ← Nat.add_assoc] at htop hin
  have hcheck := hin.left.emits
  obtain ⟨hbranch, hin⟩ := hin.right.jumpIfFalse
  have hsize : pc + startCode.length + 1 +
      codeSize (RecordLang.emits (Instruction.load slot :: stopCode ++
        [Instruction.binary direction.test])) =
        pc + startCode.length + 1 + 1 + stopCode.length + 1 := by
    rw [codeSize_emits, List.length_append, List.length_cons, List.length_singleton]
    omega
  rw [hsize] at hbranch hin
  have hnext : r.Has _ [.load slot, .push (.int 1), .binary direction.step, .store slot,
      .jump (place l)] := hin.right.2
  rw [htop] at hnext
  exact ⟨_, _, rfl, rfl, hstart, hcheck, hbranch, hin.left, hnext, hin.right.right.jump.2.bind.1⟩

end Fitted

def Stores (ls : Array Value) : Scopes Nat → Scopes Value → Prop :=
  Scopes.Rel fun slot v => ls[slot]? = some v

theorem Stores.shows {ls : Array Value} {slots : Scopes Nat} {env : Scopes Value}
    (h : Stores ls slots env) : Shows ls slots env := by
  intro x slot v hs hv
  obtain ⟨u, hu, hl⟩ := Scopes.Rel.find? h hs
  rw [hv] at hu
  rwa [Option.some.inj hu]

theorem getElem?_setSlot_self (ls : Array Value) (slot : Nat) (v : Value) :
    (setSlot ls slot v)[slot]? = some v := by
  rw [setSlot, Array.getElem?_setIfInBounds_self_of_lt]
  simp
  omega

theorem getElem?_setSlot_of_ne {ls : Array Value} {slot other : Nat} {u : Value} (v : Value)
    (hne : other ≠ slot) (h : ls[other]? = some u) : (setSlot ls slot v)[other]? = some u := by
  have hlt : other < ls.size := (Array.getElem?_eq_some_iff.mp h).1
  rw [setSlot, Array.getElem?_setIfInBounds_ne (Ne.symm hne), Array.getElem?_append_left hlt, h]

theorem Stores.setSlot {ls : Array Value} {slots : Scopes Nat} {env : Scopes Value} {slot : Nat}
    (h : Stores ls slots env) (hs : slot ∉ slots.meanings) (v : Value) :
    Stores (setSlot ls slot v) slots env :=
  Scopes.Rel.mono_of_not_mem (fun _ _ hne hl => getElem?_setSlot_of_ne v hne hl) h hs

/-- Where a statement leads to in the machine: behind its code at `pc`, or to a `return`. -/
def Lands (G : Ground) (r : Routine) (cs : List Frame) (pc : Nat) (slots : Scopes Nat) :
    Flow → World → Machine → Prop
  | .next env, w, m => ∃ ls, Stores ls slots env ∧ At G (⟨r, ls, [], pc⟩ :: cs) w m
  | .returned v, w, m =>
    ∃ ls at', r.code[at']? = some .ret ∧ At G (⟨r, ls, [v], at'⟩ :: cs) w m

variable {G : Ground} {d : Declarations} {k : Interp} {n bound : Nat} {r : Routine}
  {cs : List Frame} {place : Nat → Nat} {c : Catalog} {ret : Ty}

theorem Lands.leaveBlock {pc : Nat} {slots outer : Scopes Nat} {flow : Flow} {w : World}
    {m : Machine} (h : Lands G r cs pc slots flow w m) (hs : slots.tail = outer) :
    Lands G r cs pc outer flow.leaveBlock w m := by
  subst hs
  cases flow with
  | next env =>
    obtain ⟨ls, hst, hat⟩ := h
    exact ⟨ls, Scopes.Rel.pop hst, hat⟩
  | returned v => exact h

/-- The value on the stack goes into a variable or into a field that is reached from one. -/
theorem storeCode_follows {g : Generator} (hg : g.Sound) {target : List Ident} {code : Code}
    {env : Scopes Value} {ls : Array Value} {v : Value} {pc : Nat} {w : World} {m : Machine}
    (hok : storeCode g.slots target = .ok code) (hcode : r.Has pc code)
    (hst : Stores ls g.slots env) (hat : At G (⟨r, ls, [v], pc⟩ :: cs) w m) :
    Follows n m (evalStore env v target w) fun env w m =>
      ∃ ls, Stores ls g.slots env ∧ At G (⟨r, ls, [], pc + code.length⟩ :: cs) w m := by
  cases target with
  | nil => cases hok
  | cons head fields =>
    obtain ⟨slot, hslot, hok⟩ := bind_eq_ok.mp hok
    have hslot' := slotOf_eq_ok hslot
    unfold evalStore
    cases hlast : fields.getLast? with
    | none =>
      simp only [hlast] at hok ⊢
      cases hok
      obtain ⟨env', henv, hst'⟩ := Scopes.Rel.assign?_of_nodup
        (fun _ _ hne hl => getElem?_setSlot_of_ne v hne hl) hst hg.distinct hslot'
        (getElem?_setSlot_self ls slot v)
      obtain ⟨m', hstep, hat'⟩ := hat.store hcode.head
      rw [henv]
      exact ⟨m', .single hstep, _, hst', hat'⟩
    | some last =>
      simp only [hlast] at hok ⊢
      cases hok
      apply (loadPath_follows hst.shows hslot' hcode.left hat).bind
      intro owner w m hat
      obtain ⟨m', hstep, hat'⟩ := hat.swap hcode.right.head
      refine Follows.after (.single hstep) ?_
      apply (hat'.setField hcode.right.tail.head).bind
      intro _ w m hat
      refine .here ⟨ls, hst, ?_⟩
      simpa [Nat.add_assoc] using hat

/-- A turn of a `while` loop: from its test at `top` back to it, or out to `done`. -/
theorem whileTurn_follows {test : Scopes Value → Eval Value} {body : Scopes Value → Eval Flow}
    {slots slots' : Scopes Nat} {top branch finish done : Nat}
    (htest : ∀ env ls w m, Stores ls slots env → At G (⟨r, ls, [], top⟩ :: cs) w m →
      Follows n m (test env w) fun v w m => At G (⟨r, ls, [v], branch⟩ :: cs) w m)
    (hbranch : r.code[branch]? = some (.jumpIfFalse done))
    (hbody : ∀ env ls w m, Stores ls slots.push env → At G (⟨r, ls, [], branch + 1⟩ :: cs) w m →
      Follows n m (body env w) (Lands G r cs finish slots'))
    (hslots : slots'.tail = slots) (hback : r.code[finish]? = some (.jump top))
    (env : Scopes Value) (w : World) (m : Machine) (h : Lands G r cs top slots (.next env) w m) :
    Follows n m (whileTurn test body env w)
      (Turned (fun env => Lands G r cs top slots (.next env)) (Lands G r cs done slots)) := by
  obtain ⟨ls, hst, hat⟩ := h
  apply (htest env ls w m hst hat).bind
  intro v w m hat
  apply (hat.jumpIfFalse hbranch).bind
  intro b w m hat
  cases b with
  | false => exact .here ⟨ls, hst, hat⟩
  | true =>
    apply (hbody env.push ls w m hst.push hat).bind
    intro flow w m hland
    cases flow with
    | returned v => exact .here hland
    | next env' =>
      obtain ⟨ls', hst', hat'⟩ := hland
      obtain ⟨m', hstep, hat''⟩ := hat'.jump hback
      exact .here ⟨m', hstep, ls', hslots ▸ Scopes.Rel.pop hst', hat''⟩

/-- The state before a turn of a counted loop: `slot` holds the value of its variable. -/
def Counts (G : Ground) (r : Routine) (cs : List Frame) (pc : Nat) (slots : Scopes Nat)
    (slot : Nat) (s : Scopes Value × Value) (w : World) (m : Machine) : Prop :=
  ∃ ls, Stores ls slots s.1 ∧ ls[slot]? = some s.2 ∧ At G (⟨r, ls, [], pc⟩ :: cs) w m

theorem Direction.apply_test (direction : Direction) (v last : Value) :
    direction.test.apply v last = direction.covers v last := by
  cases direction <;> rfl

theorem Direction.apply_step (direction : Direction) (v : Value) :
    direction.step.apply v (.int 1) = direction.following v := by
  cases direction <;> rfl

/-- A turn of a counted loop. Its variable has the slot `slot`, which no other variable has. -/
theorem countTurn_follows {name : String} {direction : Direction}
    {stop : Scopes Value → Eval Value} {body : Scopes Value → Eval Flow} {slots slots' : Scopes Nat}
    {slot top branch finish done : Nat} (hload : r.code[top]? = some (.load slot))
    (hstop : ∀ env ls v w m, Stores ls slots env → At G (⟨r, ls, [v], top + 1⟩ :: cs) w m →
      Follows n m (stop env w) fun u w m => At G (⟨r, ls, [u, v], branch⟩ :: cs) w m)
    (htest : r.code[branch]? = some (.binary direction.test))
    (hbranch : r.code[branch + 1]? = some (.jumpIfFalse done))
    (hbody : ∀ env ls w m, Stores ls (slots.push.declare name slot) env →
      At G (⟨r, ls, [], branch + 2⟩ :: cs) w m →
      Follows n m (body env w) (Lands G r cs finish slots'))
    (hslots : slots'.tail = slots) (hname : slots'.find? name = some slot)
    (hfresh : slot ∉ slots.meanings)
    (hnext : r.Has finish [.load slot, .push (.int 1), .binary direction.step, .store slot])
    (hback : r.code[finish + 4]? = some (.jump top))
    (s : Scopes Value × Value) (w : World) (m : Machine) (h : Counts G r cs top slots slot s w m) :
    Follows n m (countTurn name direction stop body s w)
      (Turned (Counts G r cs top slots slot) (Lands G r cs done slots)) := by
  obtain ⟨env, v⟩ := s
  obtain ⟨ls, hst, hv, hat⟩ := h
  obtain ⟨m₁, hstep, hat⟩ := hat.load hload hv
  refine Follows.after (.single hstep) ?_
  apply (hstop env ls v w m₁ hst hat).bind
  intro last w m hat
  have htested := hat.binary htest (n := n)
  rw [direction.apply_test] at htested
  apply htested.bind
  intro t w m hat
  apply (hat.jumpIfFalse hbranch).bind
  intro b w m hat
  cases b with
  | false => exact .here ⟨ls, hst, hat⟩
  | true =>
    apply (hbody (env.push.declare name v) ls w m (hst.push.declare hv) hat).bind
    intro flow w m hland
    cases flow with
    | returned u => exact .here hland
    | next env' =>
      obtain ⟨ls', hst', hat⟩ := hland
      apply Follows.known
      intro u hu
      have hslot : ls'[slot]? = some u := hst'.shows name slot u hname hu
      obtain ⟨m₁, hstep₁, hat⟩ := hat.load hnext.head hslot
      obtain ⟨m₂, hstep₂, hat⟩ := hat.push hnext.tail.head
      refine Follows.after (.head hstep₁ (.single hstep₂)) ?_
      have hstepped := hat.binary hnext.tail.tail.head (n := n)
      rw [direction.apply_step] at hstepped
      apply hstepped.bind
      intro u' w m hat
      obtain ⟨m₃, hstep₃, hat⟩ := hat.store hnext.tail.tail.tail.head
      obtain ⟨m₄, hstep₄, hat⟩ := hat.jump hback
      have hst'' : Stores ls' slots env'.pop := hslots ▸ Scopes.Rel.pop hst'
      refine ⟨m₃, .single hstep₃, m₄, hstep₄, _, hst''.setSlot hfresh u', ?_, hat⟩
      exact getElem?_setSlot_self ls' slot u'

theorem Lands.jump {pc t : Nat} {slots : Scopes Nat} {flow : Flow} {w : World} {m : Machine}
    (h : Lands G r cs pc slots flow w m) (hj : r.code[pc]? = some (.jump t)) :
    ∃ m', Reaches m m' ∧ Lands G r cs t slots flow w m' := by
  cases flow with
  | returned v => exact ⟨m, .refl m, h⟩
  | next env =>
    obtain ⟨ls, hst, hat⟩ := h
    obtain ⟨m', hstep, hat'⟩ := hat.jump hj
    exact ⟨m', .single hstep, ls, hst, hat'⟩

theorem loop_follows (hk : Backs G d k n) (hb : n ≤ bound) {test : Expr} {body : List Stmt}
    {g g' : Generator} {ds : List Directive} {env : Scopes Value} {ls : Array Value} {pc : Nat}
    {w : World} {m : Machine} (hok : (Stmt.loop test body).generate d g = .ok (ds, g'))
    (hfit : Fitted place r pc ds)
    (hbody : ∀ inner g₁ pc env ls w m,
      generateStmts d (g.takeLabels 2).push body = .ok (inner, g₁) → Fitted place r pc inner →
      Stores ls g.slots.push env → At G (⟨r, ls, [], pc⟩ :: cs) w m →
      Follows n m (evalStmts k bound env body w) (Lands G r cs (pc + codeSize inner) g₁.slots))
    (hst : Stores ls g.slots env) (hat : At G (⟨r, ls, [], pc⟩ :: cs) w m) :
    Follows n m ((Stmt.loop test body).eval k bound env w)
      (Lands G r cs (pc + codeSize ds) g'.slots) := by
  obtain ⟨testCode, htest, hok⟩ := bind_eq_ok.mp hok
  obtain ⟨⟨inner, g₁⟩, hinner, hok⟩ := bind_eq_ok.mp hok
  cases hok
  have hin : Fitted place r pc (.newLabel :: .newLabel :: .bind g.nextLabel ::
      (emits testCode ++ (Directive.jumpIfFalse (g.nextLabel + 1) ::
        (inner ++ [Directive.jump g.nextLabel, .bind (g.nextLabel + 1)])))) := by
    simpa using hfit
  obtain ⟨htop, hin⟩ := hin.newLabel.newLabel.bind
  have htestCode := hin.left.emits
  obtain ⟨hbranch, hin⟩ := hin.right.jumpIfFalse
  obtain ⟨hback, hend⟩ := hin.right.jump
  rw [codeSize_emits] at hbranch hin hback hend
  rw [htop] at hback
  have hdone : place (g.nextLabel + 1) = pc + codeSize (Directive.newLabel ::
      Directive.newLabel :: Directive.bind g.nextLabel :: emits testCode ++
        Directive.jumpIfFalse (g.nextLabel + 1) :: inner ++
          [Directive.jump g.nextLabel, .bind (g.nextLabel + 1)]) := by
    rw [hend.bind.1]
    simp [Directive.size]
    omega
  have hslots : g₁.pop.slots = g.slots := (generateStmts_advances body hinner).pop_slots rfl
  rw [← hdone, hslots]
  have hturn := whileTurn_follows
    (fun env ls w m hst hat => test.code_follows hk (Stores.shows hst) htest htestCode hat) hbranch
    (fun env ls w m hst hat => hbody inner g₁ _ env ls w m hinner hin.left hst hat) hslots hback
  exact Follows.repeatFor hturn hb (Nat.le_refl n) ⟨ls, hst, hat⟩

theorem count_follows (hk : Backs G d k n) (hb : n ≤ bound) {var : Ident} {start stop : Expr}
    {direction : Direction} {body : List Stmt} {g g' : Generator} {ds : List Directive}
    {env : Scopes Value} {ls : Array Value} {pc : Nat} {w : World} {m : Machine} (hg : g.Sound)
    (hok : (Stmt.count var start direction stop body).generate d g = .ok (ds, g'))
    (hfit : Fitted place r pc ds)
    (hkeeps : ∀ inner g₁, generateStmts d (g.countScope var) body = .ok (inner, g₁) →
      g₁.slots.find? var.text = some g.nextSlot)
    (hbody : ∀ inner g₁ pc env ls w m,
      generateStmts d (g.countScope var) body = .ok (inner, g₁) → Fitted place r pc inner →
      Stores ls (g.countScope var).slots env → At G (⟨r, ls, [], pc⟩ :: cs) w m →
      Follows n m (evalStmts k bound env body w) (Lands G r cs (pc + codeSize inner) g₁.slots))
    (hst : Stores ls g.slots env) (hat : At G (⟨r, ls, [], pc⟩ :: cs) w m) :
    Follows n m ((Stmt.count var start direction stop body).eval k bound env w)
      (Lands G r cs (pc + codeSize ds) g'.slots) := by
  obtain ⟨startCode, hstart, hok⟩ := bind_eq_ok.mp hok
  obtain ⟨stopCode, hstop, hok⟩ := bind_eq_ok.mp hok
  obtain ⟨⟨inner, g₁⟩, hinner, hok⟩ := bind_eq_ok.mp hok
  cases hok
  obtain ⟨top, entrance, rfl, rfl, hstartCode, hcheck, hbranch, hin, hnext, hend⟩ := hfit.count
  have hcompare := hcheck.right.head
  rw [List.length_cons, Nat.add_comm stopCode.length, ← Nat.add_assoc] at hcompare
  have hdone : place (g.nextLabel + 1) = pc + codeSize (Directive.newLabel ::
      Directive.newLabel :: emits (startCode ++ [Instruction.store g.nextSlot]) ++
        Directive.bind g.nextLabel :: emits (Instruction.load g.nextSlot :: stopCode ++
          [Instruction.binary direction.test]) ++
          Directive.jumpIfFalse (g.nextLabel + 1) :: inner ++ emits [.load g.nextSlot,
            .push (.int 1), .binary direction.step, .store g.nextSlot] ++
              [Directive.jump g.nextLabel, .bind (g.nextLabel + 1)]) := by
    rw [hend]
    simp [Directive.size]
    omega
  have hslots : g₁.pop.slots = g.slots := (generateStmts_advances body hinner).pop_slots rfl
  rw [hslots]
  have hsteps : r.Has _ ([Instruction.load g.nextSlot, .push (.int 1), .binary direction.step,
      .store g.nextSlot] ++ [Instruction.jump (pc + startCode.length + 1)]) := hnext
  have hturn := countTurn_follows hcheck.head
    (fun env ls v w m hst hat => stop.code_follows hk (Stores.shows hst) hstop hcheck.left.tail hat)
    hcompare hbranch
    (fun env ls w m hst hat => hbody inner g₁ _ env ls w m hinner hin hst hat) hslots
    (hkeeps inner g₁ hinner) hg.nextSlot_not_mem hsteps.left hsteps.right.head
  apply (start.code_follows hk hst.shows hstart hstartCode.left hat).bind
  intro v w m hat
  obtain ⟨m', hstep, hat'⟩ := hat.store hstartCode.right.head
  refine Follows.after (.single hstep) ?_
  have hinit : Counts G r cs _ g.slots g.nextSlot (env, v) w m' :=
    ⟨setSlot ls g.nextSlot v, hst.setSlot hg.nextSlot_not_mem v, getElem?_setSlot_self _ _ _, hat'⟩
  have h := Follows.repeatFor hturn hb (Nat.le_refl n) hinit
  rw [hdone] at h
  exact h

theorem branch_follows (hk : Backs G d k n) {test : Expr} {body : List Stmt} {rest : Branches}
    {g g' : Generator} {ds : List Directive} {done : Nat} {env : Scopes Value} {ls : Array Value}
    {pc : Nat} {w : World} {m : Machine}
    (hok : (Branches.branch test body rest).generate d done g = .ok (ds, g'))
    (hfit : Fitted place r pc ds) (hdone : place done = pc + codeSize ds)
    (hbody : ∀ inner g₁ pc env ls w m,
      generateStmts d (g.takeLabels 1).push body = .ok (inner, g₁) → Fitted place r pc inner →
      Stores ls g.slots.push env → At G (⟨r, ls, [], pc⟩ :: cs) w m →
      Follows n m (evalStmts k bound env body w) (Lands G r cs (pc + codeSize inner) g₁.slots))
    (hrest : ∀ more (g₁ g₂ : Generator) pc w m, rest.generate d done g₁ = .ok (more, g₂) →
      g₁.slots = g.slots → g.nextSlot ≤ g₁.nextSlot → Fitted place r pc more →
      place done = pc + codeSize more →
      At G (⟨r, ls, [], pc⟩ :: cs) w m →
      Follows n m (rest.eval k bound env w) (Lands G r cs (pc + codeSize more) g₂.slots))
    (hst : Stores ls g.slots env) (hat : At G (⟨r, ls, [], pc⟩ :: cs) w m) :
    Follows n m ((Branches.branch test body rest).eval k bound env w)
      (Lands G r cs (pc + codeSize ds) g'.slots) := by
  obtain ⟨testCode, htest, hok⟩ := bind_eq_ok.mp hok
  obtain ⟨⟨inner, g₁⟩, hinner, hok⟩ := bind_eq_ok.mp hok
  obtain ⟨⟨more, g₂⟩, hmore, hok⟩ := bind_eq_ok.mp hok
  have hadvance := generateStmts_advances body hinner
  have hslots : g₂.slots = g.slots :=
    (rest.generate_advances hmore).2.trans (hadvance.pop_slots rfl)
  obtain ⟨leave, hleave, hds⟩ : ∃ leave : List Directive,
      (leave = [.jump done] ∨ leave = [] ∧ more = []) ∧
      ds = .newLabel :: (emits testCode ++ (.jumpIfFalse g.nextLabel :: (inner ++
        (leave ++ (.bind g.nextLabel :: more))))) ∧ g' = g₂ := by
    cases rest with
    | done =>
      cases hmore
      cases hok
      exact ⟨[], .inr ⟨rfl, rfl⟩, by simp, rfl⟩
    | _ =>
      cases hok
      exact ⟨[.jump done], .inl rfl, by simp, rfl⟩
  obtain ⟨rfl, rfl⟩ := hds
  have hin := hfit.newLabel
  have htestCode := hin.left.emits
  obtain ⟨hbranch, hin⟩ := hin.right.jumpIfFalse
  obtain ⟨hnext, hmoreFit⟩ := hin.right.right.bind
  rw [codeSize_emits] at hbranch hin hnext hmoreFit
  have hsize : codeSize (.newLabel :: (emits testCode ++ (.jumpIfFalse g.nextLabel :: (inner ++
      (leave ++ (.bind g.nextLabel :: more)))))) =
        testCode.length + 1 + codeSize inner + codeSize leave + codeSize more := by
    simp [Directive.size]
    omega
  rw [hsize] at hdone ⊢
  apply (test.code_follows hk hst.shows htest htestCode hat).bind
  intro v w m hat
  apply (hat.jumpIfFalse hbranch).bind
  intro b w m hat
  cases b with
  | false =>
    have hat' : At G (⟨r, ls, [], pc + testCode.length + 1 + codeSize inner + codeSize leave⟩ :: cs)
        w m := hnext ▸ hat
    have h := hrest more g₁.pop g' _ w m hmore (hadvance.pop_slots rfl) hadvance.slot_le hmoreFit
      (by omega) hat'
    have hpc : pc + (testCode.length + 1 + codeSize inner + codeSize leave + codeSize more) =
        pc + testCode.length + 1 + codeSize inner + codeSize leave + codeSize more := by
      omega
    rw [hpc]
    exact h
  | true =>
    apply (hbody inner g₁ _ env.push ls w m hinner hin.left hst.push hat).bind
    intro flow w m hland
    have hland' : Lands G r cs _ g'.slots flow.leaveBlock w m :=
      hland.leaveBlock (hadvance.tail.trans hslots.symm)
    rcases hleave with rfl | ⟨rfl, rfl⟩
    · obtain ⟨hjump, _⟩ := hin.right.left.jump
      rw [← hdone]
      exact hland'.jump hjump
    · have hpc : pc + (testCode.length + 1 + codeSize inner + codeSize [] + codeSize []) =
          pc + testCode.length + 1 + codeSize inner := by
        simp only [codeSize_nil]
        omega
      rw [hpc]
      exact .here hland'

mutual

theorem Stmt.code_follows (hk : Backs G d k n) (hb : n ≤ bound) (s : Stmt) {g g' : Generator}
    {ds : List Directive} {Γ Γ' : Scopes Meaning} {env : Scopes Value} {ls : Array Value} {pc : Nat}
    {w : World} {m : Machine} (hcheck : s.check c ret Γ = .ok Γ') (hmir : Mirrors c Γ g.slots)
    (hg : g.Sound) (hok : s.generate d g = .ok (ds, g')) (hfit : Fitted place r pc ds)
    (hst : Stores ls g.slots env) (hat : At G (⟨r, ls, [], pc⟩ :: cs) w m) :
    Follows n m (s.eval k bound env w) (Lands G r cs (pc + codeSize ds) g'.slots) := by
  match s with
  | .declare b =>
    obtain ⟨init, hinit, hok⟩ := bind_eq_ok.mp hok
    cases hok
    have hcode := hfit.emits
    apply (b.init.code_follows hk hst.shows hinit hcode.left hat).bind
    intro v w m hat
    obtain ⟨m', hstep, hat'⟩ := hat.store hcode.right.head
    refine ⟨m', .single hstep, setSlot ls g.nextSlot v, ?_, ?_⟩
    · exact (hst.setSlot hg.nextSlot_not_mem v).declare (getElem?_setSlot_self ls g.nextSlot v)
    · simpa only [codeSize_emits, List.length_append, List.length_singleton, Nat.add_assoc]
        using hat'
  | .assign target value =>
    obtain ⟨code, hvalue, hok⟩ := bind_eq_ok.mp hok
    obtain ⟨store, hstore, hok⟩ := bind_eq_ok.mp hok
    cases hok
    have hcode := hfit.emits
    apply (value.code_follows hk hst.shows hvalue hcode.left hat).bind
    intro v w m hat
    apply (storeCode_follows hg hstore hcode.right hst hat).bind
    intro env' w m hland
    refine .here ?_
    rw [codeSize_emits, List.length_append, ← Nat.add_assoc]
    exact hland
  | .cond branches =>
    obtain ⟨⟨body, g₁⟩, hbody, hok⟩ := bind_eq_ok.mp hok
    cases hok
    obtain ⟨_, hbranches, _⟩ := bind_eq_ok.mp hcheck
    have hin : Fitted place r pc (body ++ [.bind g.nextLabel]) := hfit.newLabel
    have hdone := hin.right.bind.1
    have h := branches.code_follows (g := g.takeLabels 1) hk hb hbranches hmir
      ⟨hg.distinct, hg.below⟩ hbody hin.left hdone hst hat
    have hsize : codeSize (.newLabel :: body ++ [.bind g.nextLabel]) = codeSize body := by
      simp [Directive.size]
    rwa [hsize]
  | .loop test body =>
    obtain ⟨_, _, hcheck⟩ := bind_eq_ok.mp hcheck
    obtain ⟨_, hcheckBody, _⟩ := bind_eq_ok.mp hcheck
    refine loop_follows hk hb hok hfit ?_ hst hat
    intro inner g₁ pc env ls w m hbody hfit hst hat
    exact generateStmts_follows (g := (g.takeLabels 2).push) hk hb body hcheckBody hmir.push
      ⟨hg.distinct, hg.below⟩ hbody hfit hst hat
  | .count var start direction stop body =>
    obtain ⟨_, _, hcheck⟩ := bind_eq_ok.mp hcheck
    obtain ⟨_, _, hcheck⟩ := bind_eq_ok.mp hcheck
    obtain ⟨_, hcheckBody, _⟩ := bind_eq_ok.mp hcheck
    have hmir' : Mirrors c (Γ.push.declare var.text (.variable .int)) (g.countScope var).slots :=
      Scopes.RelAbove.declare hmir.push ⟨.int, rfl⟩
    have hg' : (g.countScope var).Sound :=
      Sound.declare (g := (g.takeLabels 2).push) ⟨hg.distinct, hg.below⟩ var.text
    refine count_follows hk hb hg hok hfit ?_ ?_ hst hat
    · intro inner g₁ hbody
      exact (generateStmts_grows body hcheckBody hmir' hbody).find?_declare
    · intro inner g₁ pc env ls w m hbody hfit hst hat
      exact generateStmts_follows hk hb body hcheckBody hmir' hg' hbody hfit hst hat
  | .ret none _ =>
    cases hok
    obtain ⟨m', hstep, hat'⟩ := hat.push hfit.emits.head
    exact ⟨m', .single hstep, ls, pc + 1, hfit.emits.tail.head, hat'⟩
  | .ret (some value) _ =>
    obtain ⟨code, hvalue, hok⟩ := bind_eq_ok.mp hok
    cases hok
    have hcode := hfit.emits
    apply (value.code_follows hk hst.shows hvalue hcode.left hat).bind
    intro v w m hat
    exact .here ⟨ls, _, hcode.right.head, hat⟩
  | .delete name =>
    obtain ⟨slot, hslot, hok⟩ := bind_eq_ok.mp hok
    cases hok
    apply Follows.known
    intro v hv
    have hcode := hfit.emits
    obtain ⟨m', hstep, hat'⟩ := hat.load hcode.head (hst.shows _ _ _ (slotOf_eq_ok hslot) hv)
    refine Follows.after (.single hstep) ?_
    apply (hat'.free hcode.tail.head).bind
    intro _ w m hat
    exact .here ⟨ls, hst, hat⟩
  | .call fn args =>
    obtain ⟨code, hcall, hok⟩ := bind_eq_ok.mp hok
    cases hok
    have hcode := hfit.emits
    obtain ⟨argsCode, hargs, hcall⟩ := bind_eq_ok.mp hcall
    cases hcall
    apply (argsCode_follows hk hst.shows args hargs hcode.left.left hat).bind
    intro values w m hat
    apply (applyCode_follows hk fn.text hcode.left.right hat).bind
    intro v w m hat
    have hpop := hcode.right.head
    rw [List.length_append, ← Nat.add_assoc] at hpop
    obtain ⟨m', hstep, hat'⟩ := hat.pop hpop
    refine ⟨m', .single hstep, ls, hst, ?_⟩
    simpa only [codeSize_emits, List.length_append, List.length_singleton, Nat.add_assoc] using hat'

theorem generateStmts_follows (hk : Backs G d k n) (hb : n ≤ bound) (ss : List Stmt)
    {g g' : Generator} {ds : List Directive} {Γ : Scopes Meaning} {env : Scopes Value}
    {ls : Array Value} {pc : Nat} {w : World} {m : Machine}
    (hcheck : checkStmts c ret Γ ss = .ok ()) (hmir : Mirrors c Γ g.slots) (hg : g.Sound)
    (hok : generateStmts d g ss = .ok (ds, g')) (hfit : Fitted place r pc ds)
    (hst : Stores ls g.slots env) (hat : At G (⟨r, ls, [], pc⟩ :: cs) w m) :
    Follows n m (evalStmts k bound env ss w) (Lands G r cs (pc + codeSize ds) g'.slots) := by
  match ss with
  | [] =>
    cases hok
    exact .here ⟨ls, hst, hat⟩
  | s :: rest =>
    obtain ⟨first, g₁, hfirst, h⟩ := generateStmts_cons hok
    obtain ⟨Γ₁, hs, hrest⟩ := checkStmts_cons hcheck
    rcases h with ⟨hret, rfl, rfl⟩ | ⟨hret, more, hmore, rfl⟩
    · apply (s.code_follows hk hb hs hmir hg hfirst hfit hst hat).result.bind
      rintro flow w m ⟨heval, hland⟩
      obtain ⟨v, rfl⟩ := Stmt.eval_isReturn hret heval
      exact .here hland
    · apply (s.code_follows hk hb hs hmir hg hfirst hfit.left hst hat).bind
      intro flow w m hland
      rw [codeSize_append, ← Nat.add_assoc]
      cases flow with
      | returned v => exact .here hland
      | next env' =>
        obtain ⟨ls', hst', hat'⟩ := hland
        have hg₁ := (s.generate_advances hfirst).sound hg
        exact generateStmts_follows hk hb rest (hrest hret) (hmir.stmt hs hfirst) hg₁ hmore
          hfit.right hst' hat'

theorem Branches.code_follows (hk : Backs G d k n) (hb : n ≤ bound) (bs : Branches)
    {g g' : Generator} {ds : List Directive} {done : Nat} {Γ : Scopes Meaning} {env : Scopes Value}
    {ls : Array Value} {pc : Nat} {w : World} {m : Machine}
    (hcheck : bs.check c ret Γ = .ok ()) (hmir : Mirrors c Γ g.slots) (hg : g.Sound)
    (hok : bs.generate d done g = .ok (ds, g')) (hfit : Fitted place r pc ds)
    (hdone : place done = pc + codeSize ds) (hst : Stores ls g.slots env)
    (hat : At G (⟨r, ls, [], pc⟩ :: cs) w m) :
    Follows n m (bs.eval k bound env w) (Lands G r cs (pc + codeSize ds) g'.slots) := by
  match bs with
  | .done =>
    cases hok
    exact .here ⟨ls, hst, hat⟩
  | .otherwise body =>
    obtain ⟨⟨inner, g₁⟩, hbody, hok⟩ := bind_eq_ok.mp hok
    cases hok
    apply (generateStmts_follows (g := g.push) hk hb body hcheck hmir.push ⟨hg.distinct, hg.below⟩
      hbody hfit hst.push hat).bind
    intro flow w m hland
    exact .here (hland.leaveBlock rfl)
  | .branch test body rest =>
    obtain ⟨_, _, hcheck⟩ := bind_eq_ok.mp hcheck
    obtain ⟨_, hcheckBody, hcheckRest⟩ := bind_eq_ok.mp hcheck
    refine branch_follows hk hok hfit hdone ?_ ?_ hst hat
    · intro inner g₁ pc env ls w m hbody hfit hst hat
      exact generateStmts_follows (g := (g.takeLabels 1).push) hk hb body hcheckBody hmir.push
        ⟨hg.distinct, hg.below⟩ hbody hfit hst hat
    · intro more g₁ g₂ pc w m hmore hslots hle hfit hdone hat
      exact rest.code_follows hk hb hcheckRest (hslots ▸ hmir) (hg.of_slots_eq hslots hle) hmore
        hfit hdone (hslots ▸ hst) hat

end

end RecordLang
