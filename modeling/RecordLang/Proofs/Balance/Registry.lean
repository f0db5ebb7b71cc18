import RecordLang.Proofs.Balance.Coverage

/-! # Routines that have been loaded

Routines are checked when they are loaded, against the routines that are there then. A routine that
is loaded later can take the place of one with another number of parameters; the callers of that one
are not checked again. So a routine is in balance with the others for as long as the routines that
it calls keep their numbers of parameters.
-/

namespace RecordLang

theorem Instruction.effect?_congr {i : Instruction} {arity arity' : String → Option Nat}
    (h : ∀ name, i = .call name → arity name = arity' name) :
    i.effect? arity = i.effect? arity' := by
  cases i with
  | call name => rw [effect?, effect?, h name rfl]
  | _ => rfl

namespace Routine

variable {r : Routine} {arities arities' : Table Nat}

theorem successors_congr {size pc : Nat} {i : Instruction} {d : Int64}
    (h : ∀ name, i = .call name → arities.get? name = arities'.get? name) :
    successors size arities pc i d = successors size arities' pc i d := by
  unfold successors
  rw [Instruction.effect?_congr h]

/-- A routine stays balanced if the routines that it calls keep their arities. -/
theorem checkBalance_congr
    (h : ∀ name, .call name ∈ r.code → arities.get? name = arities'.get? name)
    (hok : r.checkBalance arities = .ok ()) : r.checkBalance arities' = .ok () := by
  obtain ⟨depth, hl, _⟩ := exists_labelling hok
  apply checkBalance_of_labelling (r := r)
  refine ⟨hl.start, ?_⟩
  intro pc d hd
  obtain ⟨hpc, next, hn, hnext⟩ := hl.steady pc d hd
  refine ⟨hpc, next, ?_, hnext⟩
  rw [← hn]
  apply successors_congr
  intro name hname
  exact (h name (hname ▸ Array.getElem_mem hpc)).symm

end Routine

/-- The routines of the table stand under their own names, which are all different. -/
structure Filed (t : Table Routine) : Prop where
  named : ∀ e ∈ t, e.1 = e.2.name
  distinct : t.names.Nodup

namespace Filed

variable {t : Table Routine}

theorem nil : Filed [] := ⟨by simp, List.nodup_nil⟩

theorem put (ht : Filed t) (r : Routine) : Filed (t.put r.name r) := by
  refine ⟨?_, Table.nodup_names_put ht.distinct⟩
  intro e he
  rcases Table.mem_put he with he | rfl
  · exact ht.named e he
  · rfl

theorem addTo (ht : Filed t) (b : Bytecode) : Filed (b.addTo t) := by
  induction b generalizing t with
  | nil => exact ht
  | cons r b ih => exact ih (ht.put r)

theorem names_eq (ht : Filed t) : (t.map Prod.snd).map Routine.name = t.names := by
  rw [List.map_map]
  exact List.map_congr_left fun e he => (ht.named e he).symm

theorem get?_addTo (ht : Filed t) (name : String) :
    (Bytecode.addTo (t.map Prod.snd) []).get? name = t.get? name := by
  cases hr : t.get? name with
  | none =>
    apply Bytecode.get?_addTo_of_not_mem
    rw [ht.names_eq, ← Table.has_iff, Table.has, hr]
    exact Bool.false_ne_true
  | some r =>
    have hmem := (Table.get?_eq_some_iff ht.distinct).mp hr
    obtain rfl : name = r.name := ht.named _ hmem
    apply Bytecode.get?_addTo_of_mem
    · rw [ht.names_eq]
      exact ht.distinct
    · exact List.mem_map.mpr ⟨_, hmem, rfl⟩

theorem arities_get? (ht : Filed t) (name : String) :
    (arities (t.map Prod.snd)).get? name = (t.get? name).map Routine.arity := by
  rw [Bytecode.arities_get?, ht.get?_addTo]

theorem arities_append (ht : Filed t) (b : Bytecode) (name : String) :
    (arities (t.map Prod.snd ++ b)).get? name =
      (arities ((b.addTo t).map Prod.snd)).get? name := by
  rw [(ht.addTo b).arities_get?, arities, List.foldl_append]
  exact Bytecode.arities_addTo b t ht.arities_get? name

end Filed

namespace Machine

def arityTable (m : Machine) : Table Nat := arities (m.routines.map Prod.snd)

/-- The machine behind an attempt to load bytecode; a refusal changes nothing. -/
def afterLoad (m : Machine) (b : Bytecode) : Machine :=
  match m.load b with
  | .ok m' => m'
  | .error _ => m

/-- The machine behind attempts to load one piece of bytecode after the other. -/
def afterLoads (m : Machine) (bs : List Bytecode) : Machine := bs.foldl afterLoad m

variable {m m' : Machine} {b : Bytecode}

theorem load_eq_ok (hv : m.config.verify = true) (h : m.load b = .ok m') :
    (∀ r ∈ b, r.checkBalance (arities (m.routines.map Prod.snd ++ b)) = .ok ()) ∧
      m' = { m with routines := b.addTo m.routines } := by
  unfold load at h
  simp only [hv, if_true] at h
  split at h
  next hb =>
    cases h
    exact ⟨forM_eq_ok.mp hb, rfl⟩
  next => cases h

/-- Routines that are accepted are in balance with those that are there then. -/
theorem load_balanced (hv : m.config.verify = true) (ht : Filed m.routines)
    (h : m.load b = .ok m') {r : Routine} (hr : r ∈ b) :
    r.checkBalance m'.arityTable = .ok () := by
  obtain ⟨hall, rfl⟩ := load_eq_ok hv h
  exact Routine.checkBalance_congr (fun name _ => ht.arities_append b name) (hall r hr)

/-- What attempts to load bytecode keep. -/
structure Ordered (m : Machine) : Prop where
  verify : m.config.verify = true
  filed : Filed m.routines

theorem Ordered.afterLoad (hm : Ordered m) (b : Bytecode) : Ordered (m.afterLoad b) := by
  unfold Machine.afterLoad
  split
  next m' h =>
    obtain ⟨_, rfl⟩ := load_eq_ok hm.verify h
    exact ⟨hm.verify, hm.filed.addTo b⟩
  next => exact hm

theorem Ordered.afterLoads (hm : Ordered m) (bs : List Bytecode) : Ordered (m.afterLoads bs) := by
  induction bs generalizing m with
  | nil => exact hm
  | cons b bs ih => exact ih (hm.afterLoad b)

theorem ordered_fresh {config : Config} (hv : config.verify = true) (input : List UInt8)
    (output : Output) : Ordered (fresh config input output) := ⟨hv, .nil⟩

/-- In attempts to load one piece of bytecode after the other, none that is accepted has a routine
called `name`. -/
def Spares (m : Machine) (name : String) : List Bytecode → Prop
  | [] => True
  | b :: bs =>
    (∀ m', m.load b = .ok m' → ∀ r ∈ b, r.name ≠ name) ∧ (m.afterLoad b).Spares name bs

theorem afterLoad_of_ok (h : m.load b = .ok m') : m.afterLoad b = m' := by
  rw [afterLoad, h]

theorem afterLoad_of_error {e : Fault} (h : m.load b = .error e) : m.afterLoad b = m := by
  rw [afterLoad, h]

theorem Spares.name_ne {mid rest : List Bytecode} {c : Bytecode} {name : String}
    (h : m.Spares name (mid ++ c :: rest)) (hload : (m.afterLoads mid).load c = .ok m') :
    ∀ r ∈ c, r.name ≠ name := by
  induction mid generalizing m with
  | nil => exact h.1 m' hload
  | cons b mid ih => exact ih h.2 hload

/-- A routine was there before, or it has come in with the last bytecode that was accepted and has a
routine of its name. -/
theorem exists_accepted (hm : Ordered m) (bs : List Bytecode) {name : String} {r : Routine}
    (hr : (m.afterLoads bs).routines.get? name = some r) :
    (m.routines.get? name = some r ∧ m.Spares name bs) ∨
      ∃ before b after m', bs = before ++ b :: after ∧ r ∈ b ∧
        (m.afterLoads before).load b = .ok m' ∧ m'.routines.get? name = some r ∧
        m'.Spares name after := by
  induction bs generalizing m with
  | nil => exact .inl ⟨hr, trivial⟩
  | cons b bs ih =>
    rcases ih (hm.afterLoad b) hr with ⟨hget, hspares⟩ | ⟨before, b', after, m', rfl, h⟩
    · -- nothing behind `b` counts, so the routine is that of `b` or is older
      cases hload : m.load b with
      | error e =>
        rw [afterLoad_of_error hload] at hget
        refine .inl ⟨hget, ?_, hspares⟩
        intro m' hm'
        rw [hload] at hm'
        cases hm'
      | ok m' =>
        rw [afterLoad_of_ok hload] at hget hspares
        obtain ⟨_, rfl⟩ := load_eq_ok hm.verify hload
        rcases Bytecode.get?_addTo hget with ⟨hmem, _⟩ | ⟨hnone, hold⟩
        · exact .inr ⟨[], b, bs, _, rfl, hmem, hload, hget, hspares⟩
        · refine .inl ⟨hold, fun _ _ => hnone, ?_⟩
          rw [afterLoad_of_ok hload]
          exact hspares
    · exact .inr ⟨b :: before, b', after, m', rfl, h⟩

/-- Whatever is loaded and refused, a routine that is there was in balance with the others when it
came in, which is when bytecode with a routine of its name was last accepted; and it is so now
unless a routine that it calls has another arity than then. -/
theorem loaded_routine_is_balanced_while_callees_keep_their_arities {config : Config}
    (hverify : config.verify = true) (input : List UInt8) (output : Output) (bs : List Bytecode)
    {name : String} {r : Routine}
    (hr : ((fresh config input output).afterLoads bs).routines.get? name = some r) :
    ∃ before b after m', bs = before ++ b :: after ∧ r ∈ b ∧
      ((fresh config input output).afterLoads before).load b = .ok m' ∧
      m'.routines.get? name = some r ∧
      (∀ mid c rest m'', after = mid ++ c :: rest → (m'.afterLoads mid).load c = .ok m'' →
        ∀ r' ∈ c, r'.name ≠ name) ∧
      r.checkBalance m'.arityTable = .ok () ∧
      ((∀ callee, .call callee ∈ r.code →
        ((fresh config input output).afterLoads bs).arityTable.get? callee =
          m'.arityTable.get? callee) →
        r.checkBalance ((fresh config input output).afterLoads bs).arityTable = .ok ()) := by
  have hm := ordered_fresh hverify input output
  obtain ⟨hnone, _⟩ | ⟨before, b, after, m', hbs, hmem, hload, hget, hspares⟩ :=
    exists_accepted hm bs hr
  · cases hnone
  have hbefore := hm.afterLoads before
  have hbalanced := load_balanced hbefore.verify hbefore.filed hload hmem
  refine ⟨before, b, after, m', hbs, hmem, hload, hget, ?_, hbalanced, ?_⟩
  · rintro mid c rest m'' rfl hlater
    exact hspares.name_ne hlater
  · intro hsame
    exact Routine.checkBalance_congr (fun callee hc => (hsame callee hc).symm) hbalanced

def callerOf : Bytecode := [⟨"f", 0, #[.push .nil, .ret]⟩, ⟨"g", 0, #[.call "f", .ret]⟩]

theorem caller_stays_balanced_with_a_new_result :
    ((fresh {} [] {}).afterLoads
      [callerOf, [⟨"f", 0, #[.push (.int 1), .ret]⟩]]).routines.get? "g" =
        some ⟨"g", 0, #[.call "f", .ret]⟩ ∧
    Routine.checkBalance ⟨"g", 0, #[.call "f", .ret]⟩ ((fresh {} [] {}).afterLoads
      [callerOf, [⟨"f", 0, #[.push (.int 1), .ret]⟩]]).arityTable = .ok () := by
  have hr : ((fresh {} [] {}).afterLoads
      [callerOf, [⟨"f", 0, #[.push (.int 1), .ret]⟩]]).routines.get? "g" =
      some ⟨"g", 0, #[.call "f", .ret]⟩ := by decide +kernel
  obtain ⟨before, b, after, m', hbs, hmem, hload, hget, _, hbalanced, hkeeps⟩ :=
    loaded_routine_is_balanced_while_callees_keep_their_arities rfl [] {} _ hr
  refine ⟨hr, hkeeps ?_⟩
  -- The caller came in first, when the table was empty.
  obtain ⟨rfl, rfl⟩ : before = [] ∧ b = callerOf := by
    rcases before with _ | ⟨b₀, _ | ⟨b₁, before⟩⟩
    · exact ⟨rfl, (List.cons.inj hbs).1.symm⟩
    · obtain ⟨rfl, _⟩ := List.cons.inj (List.cons.inj hbs).2
      simp at hmem
    · simp at hbs
  obtain ⟨_, rfl⟩ := load_eq_ok rfl hload
  intro callee hcallee
  obtain rfl : callee = "f" := by simpa using hcallee
  decide +kernel

/-- If `f` is loaded anew with a parameter, its caller lacks an operand. -/
theorem caller_is_unbalanced_by_a_new_parameter :
    ¬ ∀ (config : Config) (input : List UInt8) (output : Output) (bs : List Bytecode)
        (name : String) (r : Routine), config.verify = true →
        ((fresh config input output).afterLoads bs).routines.get? name = some r →
        r.checkBalance ((fresh config input output).afterLoads bs).arityTable = .ok () := by
  intro h
  have hok := h {} [] {} [callerOf, [⟨"f", 1, #[.ret]⟩]] "g" ⟨"g", 0, #[.call "f", .ret]⟩ rfl
    (by decide +kernel)
  have herror : Routine.checkBalance ⟨"g", 0, #[.call "f", .ret]⟩
      ((fresh {} [] {}).afterLoads [callerOf, [⟨"f", 1, #[.ret]⟩]]).arityTable =
      .error ⟨"g", 0, .underflow (.call "f") 1 0⟩ := by decide +kernel
  rw [herror] at hok
  cases hok

end Machine

end RecordLang
