import Mathlib.Algebra.Ring.Int.Defs
import RecordLang.Proofs.Balance.Coverage
import RecordLang.Proofs.Compile.Enclosure

/-! # Counted loops

The variable of a counted loop is a word that wraps around. So the loop takes the values from its
start to its bound, each of them once, unless the bound is the last word of all: then its test never
fails.
-/

namespace RecordLang

open Machine

/-! ## Values of the variable -/

namespace Direction

def sign : Direction → Int
  | .upto => 1
  | .downto => -1

/-- The last word in a direction. -/
def limit : Direction → Int64
  | .upto => .maxValue
  | .downto => .minValue

theorem toInt_limit_upto : (limit .upto).toInt = 2 ^ 63 - 1 := rfl

theorem toInt_limit_downto : (limit .downto).toInt = -2 ^ 63 := rfl

def turns (direction : Direction) (lo hi : Int) : Nat := (direction.sign * (hi - lo) + 1).toNat

def values (direction : Direction) (lo hi : Int) : List Int :=
  (List.range (direction.turns lo hi)).map fun (j : Nat) => lo + direction.sign * j

def nth (direction : Direction) (lo : Int64) (j : Nat) : Int64 :=
  .ofInt (lo.toInt + direction.sign * j)

variable (direction : Direction) {lo hi v : Int64} {j : Nat}

def admits (v hi : Int64) : Bool := direction.sign * v.toInt ≤ direction.sign * hi.toInt

theorem test_apply (v hi : Int64) :
    direction.test.apply (.int v) (.int hi) = .ok (.bool (direction.admits v hi)) := by
  cases direction with
  | upto =>
    show Except.ok (Value.bool (decide (v ≤ hi))) = _
    simp [admits, sign, Int64.le_iff_toInt_le]
  | downto =>
    show Except.ok (Value.bool (decide (v ≥ hi))) = _
    simp [admits, sign, Int64.le_iff_toInt_le]

theorem nth_zero (lo : Int64) : direction.nth lo 0 = lo := by
  simp [nth]

theorem nth_succ (lo : Int64) (j : Nat) :
    direction.nth lo (j + 1) = direction.nth lo j + .ofInt direction.sign := by
  rw [nth, nth, ← Int64.ofInt_add, Int.natCast_succ, Int.mul_add, Int.mul_one, Int.add_assoc]

theorem step_apply (lo : Int64) (j : Nat) :
    direction.step.apply (.int (direction.nth lo j)) (.int 1) =
      .ok (.int (direction.nth lo (j + 1))) := by
  rw [nth_succ]
  cases direction with
  | upto => rfl
  | downto => exact congrArg (fun v => Except.ok (Value.int v)) (Int64.sub_eq_add_neg _ _)

theorem toInt_nth (hlow : -2 ^ 63 ≤ lo.toInt + direction.sign * j)
    (hhigh : lo.toInt + direction.sign * j < 2 ^ 63) :
    (direction.nth lo j).toInt = lo.toInt + direction.sign * j :=
  Int64.toInt_ofInt_of_le hlow hhigh

theorem toInt_nth_of_lt (h : j < direction.turns lo.toInt hi.toInt) :
    (direction.nth lo j).toInt = lo.toInt + direction.sign * j := by
  have hlo := lo.le_toInt
  have hlo' := lo.toInt_lt
  have hhi := hi.le_toInt
  have hhi' := hi.toInt_lt
  unfold turns at h
  apply toInt_nth <;> cases direction <;> simp only [sign] at h ⊢ <;> omega

theorem map_toInt_nth (lo hi : Int64) :
    ((List.range (direction.turns lo.toInt hi.toInt)).map (direction.nth lo)).map Int64.toInt =
      direction.values lo.toInt hi.toInt := by
  rw [List.map_map, values]
  refine List.map_congr_left ?_
  intro j hj
  exact direction.toInt_nth_of_lt (List.mem_range.mp hj)

theorem admits_nth (h : j < direction.turns lo.toInt hi.toInt) :
    direction.admits (direction.nth lo j) hi = true := by
  rw [admits, direction.toInt_nth_of_lt h, decide_eq_true_iff]
  unfold turns at h
  cases direction <;> simp only [sign] at h ⊢ <;> omega

/-- Behind a bound that is not the last word, the variable does not wrap around either. -/
theorem not_admits_nth_turns (h : hi ≠ direction.limit) :
    direction.admits (direction.nth lo (direction.turns lo.toInt hi.toInt)) hi = false := by
  have hlo := lo.le_toInt
  have hlo' := lo.toInt_lt
  have hhi := hi.le_toInt
  have hhi' := hi.toInt_lt
  have hne : hi.toInt ≠ direction.limit.toInt := fun heq => h (Int64.toInt_inj.mp heq)
  rw [admits, toInt_nth, decide_eq_false_iff_not]
  all_goals
    unfold turns
    cases direction <;> simp only [sign, toInt_limit_upto, toInt_limit_downto] at hne ⊢ <;> omega

theorem admits_limit (v : Int64) : direction.admits v direction.limit = true := by
  have hlow := v.le_toInt
  have hhigh := v.toInt_lt
  rw [admits, decide_eq_true_iff]
  cases direction <;> simp only [sign, toInt_limit_upto, toInt_limit_downto] <;> omega

end Direction

/-! ## The code of a loop -/

/-- The parts of a counted loop in a routine. Its code begins at the index `first`. -/
structure CountLayout where
  first : Nat
  slot : Nat
  startCode : Code
  stopCode : Code
  inner : List Directive

namespace CountLayout

variable (L : CountLayout)

/-- Where the variable gets the value of the start. -/
def init : Nat := L.first + L.startCode.length

def test : Nat := L.init + 1

def compare : Nat := L.test + 1 + L.stopCode.length

/-- Where the loop is left if the test fails. -/
def branch : Nat := L.compare + 1

def entrance : Nat := L.branch + 1

/-- Where the variable is stepped. -/
def next : Nat := L.entrance + codeSize L.inner

def done : Nat := L.next + 5

theorem order : L.first ≤ L.init ∧ L.test = L.init + 1 ∧ L.test + 1 ≤ L.compare ∧
    L.branch = L.compare + 1 ∧ L.entrance = L.branch + 1 ∧ L.entrance ≤ L.next ∧
    L.done = L.next + 5 := by
  unfold done next entrance branch compare test init
  omega

end CountLayout

structure CountSite (d : Declarations) (r : Routine) (var : Ident) (start : Expr)
    (direction : Direction) (stop : Expr) (body : List Stmt) extends CountLayout where
  g : Generator
  place : Nat → Nat
  slot_eq : slot = g.nextSlot
  start_eq : start.code d g.slots = .ok startCode
  stop_eq : stop.code d g.slots = .ok stopCode
  inner_eq : ∃ g', generateStmts d (g.countScope var) body = .ok (inner, g')
  start_at : r.Has first startCode
  store_at : r.code[toCountLayout.init]? = some (.store slot)
  load_at : r.code[toCountLayout.test]? = some (.load slot)
  stop_at : r.Has (toCountLayout.test + 1) stopCode
  compare_at : r.code[toCountLayout.compare]? = some (.binary direction.test)
  branch_at : r.code[toCountLayout.branch]? = some (.jumpIfFalse toCountLayout.done)
  inner_at : Fitted place r toCountLayout.entrance inner
  next_at : r.Has toCountLayout.next
    [.load slot, .push (.int 1), .binary direction.step, .store slot, .jump toCountLayout.test]

variable {d : Declarations} {r : Routine} {var : Ident} {start stop : Expr} {direction : Direction}
  {body : List Stmt}

theorem Sited.countSite (h : Sited d r (.count var start direction stop body)) :
    Nonempty (CountSite d r var start direction stop body) := by
  obtain ⟨g, ds, g', place, first, hok, hfit⟩ := h
  obtain ⟨startCode, hstart, hok⟩ := bind_eq_ok.mp hok
  obtain ⟨stopCode, hstop, hok⟩ := bind_eq_ok.mp hok
  obtain ⟨⟨inner, g₁⟩, hinner, hok⟩ := bind_eq_ok.mp hok
  cases hok
  obtain ⟨test, entrance, rfl, rfl, hstartCode, hcheck, hbranch, hin, hnext, hend⟩ := hfit.count
  rw [hend] at hbranch
  have hcompare := hcheck.right.head
  rw [List.length_cons, Nat.add_comm stopCode.length, ← Nat.add_assoc] at hcompare
  exact ⟨{
    first, slot := g.nextSlot, startCode, stopCode, inner, g, place
    slot_eq := rfl, start_eq := hstart, stop_eq := hstop, inner_eq := ⟨g₁, hinner⟩
    start_at := hstartCode.left, store_at := hstartCode.right.head, load_at := hcheck.head
    stop_at := hcheck.left.tail, compare_at := hcompare, branch_at := hbranch
    inner_at := hin, next_at := hnext }⟩

/-! ## Turns of a loop -/

namespace CountLayout

def entering? (L : CountLayout) (f : Frame) : Option Value :=
  if f.pc = L.branch ∧ f.stack.head? = some (.bool true) then f.locals[L.slot]? else none

/-- The value of the variable when control is in the frame number `D` and is about to begin the
body. -/
def begun? (L : CountLayout) (D : Nat) (m : Machine) : Option Value :=
  match m.frames with
  | f :: _ => if m.depth = D then L.entering? f else none
  | [] => none

/-- As long as the loop that begins at `m` has not been left, its bound is `hi` whenever it is
evaluated, and its body comes to an end and keeps the variable whenever it is begun. -/
structure Orderly (L : CountLayout) (hi : Int64) (m : Machine) : Prop where
  bound : ∀ n x, Via (Toward m.depth L.done) n m x → Stands m.depth (L.test + 1) x →
    Delivers L.compare (.int hi) x
  body : ∀ n x v y, Via (Toward m.depth L.done) n m x → L.begun? m.depth x = some v →
    x.step = .running y → Completes L.next L.slot y

/-- Control comes from `m` to the frame `f` above `callers` without having left the loop before. The
list has the values of the variable with which the body has been begun, in order. -/
def Comes (L : CountLayout) (callers : List Frame) (m : Machine) (vs : List Value) (f : Frame) :
    Prop :=
  ∃ m', Passes (Toward (callers.length + 1) L.done) (L.begun? (callers.length + 1)) m vs m' ∧
    m'.config.maxSteps = none ∧ m'.frames = f :: callers

variable {L : CountLayout} {callers : List Frame} {m x y : Machine} {vs : List Value} {f f' : Frame}
  {r : Routine} {ls : Array Value} {st : List Value} {n a b : Nat}

theorem entering?_of_ne (h : f.pc ≠ L.branch) : L.entering? f = none :=
  if_neg fun hb => h hb.1

theorem begun?_eq (hf : x.frames = f :: callers) :
    L.begun? (callers.length + 1) x = L.entering? f := by
  simp only [begun?, hf, depth_of_frames hf, if_true]

theorem begun?_eq_some {D : Nat} {v : Value} (h : L.begun? D x = some v) :
    ∃ r ls st callers, x.frames = ⟨r, ls, .bool true :: st, L.branch⟩ :: callers ∧ x.depth = D ∧
      ls[L.slot]? = some v := by
  unfold begun? at h
  split at h
  next f callers hf =>
    split at h
    next hdepth =>
      unfold entering? at h
      split at h
      next hb =>
        obtain ⟨r, ls, st, pc⟩ := f
        obtain ⟨rfl, hst⟩ := hb
        obtain ⟨st, rfl⟩ := List.head?_eq_some_iff.mp hst
        exact ⟨r, ls, st, callers, hf, hdepth, h⟩
      next => cases h
    next => cases h
  next => cases h

theorem begun?_of_within (h : Within r callers a b x) (hb : L.branch < a ∨ b ≤ L.branch) :
    L.begun? (callers.length + 1) x = none := by
  unfold begun?
  split
  next f rest hf =>
    split
    next hdepth =>
      have hpc := h.pc_of_stands ⟨f, rest, hf, hdepth, rfl⟩
      exact entering?_of_ne (by omega)
    next => rfl
  next => rfl

/-- A step of the innermost frame, at another place than where the body is begun. -/
theorem Comes.silent {i : Instruction} (h : L.Comes callers m vs ⟨r, ls, st, a⟩)
    (hi : r.code[a]? = some i)
    (hx : ∀ x : Machine, x.exec (Frame.advance ⟨r, ls, st, a⟩) i = x.goOn f') (hb : a ≠ L.branch)
    (hdone : a ≠ L.done) : L.Comes callers m vs f' := by
  obtain ⟨x, hpass, hmax, hf⟩ := h
  obtain ⟨y, hs, hmax', hy⟩ := step_to hmax hf hi hx
  have hentry : L.begun? (callers.length + 1) x = none := (begun?_eq hf).trans (entering?_of_ne hb)
  have hquiet := Passes.quiet (toward_of_frames hf hdone) hentry hs
  refine ⟨y, ?_, hmax', hy⟩
  simpa using hpass.trans hquiet

theorem Comes.length_le {vs' : List Value} (h : L.Comes callers m vs f) (hf : f.pc = L.done)
    (h' : L.Comes callers m vs' f') : vs'.length ≤ vs.length := by
  obtain ⟨x, hpass, _, hx⟩ := h
  obtain ⟨y, hpass', _, _⟩ := h'
  have hleft : ¬ Toward (callers.length + 1) L.done x := fun ht =>
    ht.2 ((stands_iff hx).mpr ⟨depth_of_frames hx, hf⟩)
  obtain ⟨more, rfl⟩ := hpass.exists_append hleft hpass'
  rw [List.length_append]
  exact Nat.le_add_right _ _

theorem comes_of_via (hpass : Passes (Toward (callers.length + 1) L.done)
      (L.begun? (callers.length + 1)) m vs x) (hmax : x.config.maxSteps = none)
    (hf : x.frames = ⟨r, ls, st, a⟩ :: callers) (hc : r.Closed a b) (hle : a ≤ b)
    (hb : L.branch < a ∨ b ≤ L.branch) (hdone : b ≤ L.done) (h : Via (Toward x.depth b) n x y)
    (hy : y.frames = f' :: callers) : L.Comes callers m vs f' := by
  have hdepth' : callers.length + 1 ≤ y.depth := Nat.le_of_eq (depth_of_frames hy).symm
  have hf' : x.frames = [] ++ ⟨r, ls, st, a⟩ :: callers := hf
  rw [depth_of_frames hf] at h
  have hwithin := h.within hc hf' rfl (Nat.le_refl _) hle hdepth'
  have hquiet := Passes.of_via hwithin fun z hz =>
    ⟨hz.toward (.inr hdone), begun?_of_within hz hb⟩
  refine ⟨y, ?_, h.maxSteps_eq hmax, hy⟩
  simpa using hpass.trans hquiet

end CountLayout

namespace CountSite

open CountLayout

/-- The code of the start and of the bound leaves one value on the stack, that of the body none. -/
structure Poised (S : CountSite d r var start direction stop body) (arity : String → Option Nat) :
    Prop where
  start : r.Raises arity S.first S.init 1
  stop : r.Raises arity (S.test + 1) S.compare 1
  body : r.Raises arity S.entrance S.next 0

variable {S : CountSite d r var start direction stop body} {lo hi v : Int64} {m : Machine}
  {callers : List Frame} {vs : List Value} {ls : Array Value} {st : List Value} {j : Nat}

theorem starts (hS : S.Poised m.arity?) (hmax : m.config.maxSteps = none)
    (hf : m.frames = ⟨r, ls, st, S.first⟩ :: callers) (hslot : S.slot < maxLocals)
    (hy : Delivers S.init (.int lo) m) :
    ∃ ls', S.Comes callers m [] ⟨r, ls', st, S.test⟩ ∧ ls'[S.slot]? = some (.int lo) := by
  have hord := S.order
  have hno : r.Storeless S.first S.init := (Expr.code_computes S.start_eq).storeless S.start_at
  obtain ⟨n, y, hvia, hy⟩ := hy.frames hS.start hno hf
  have hstart : S.Comes callers m [] ⟨r, ls, .int lo :: st, S.init⟩ :=
    comes_of_via (.refl m) hmax hf hS.start.closed (by omega) (.inr (by omega)) (by omega) hvia hy
  exact ⟨setSlot ls S.slot (.int lo),
    hstart.silent S.store_at (exec_store hslot) (by omega) (by omega), getElem?_setSlot_self _ _ _⟩

theorem tests (hS : S.Poised m.arity?) (hm : S.Orderly hi m) (hdepth : m.depth = callers.length + 1)
    (h : S.Comes callers m vs ⟨r, ls, st, S.test⟩) (hv : ls[S.slot]? = some (.int v)) :
    S.Comes callers m vs ⟨r, ls, .bool (direction.admits v hi) :: st, S.branch⟩ := by
  have hord := S.order
  obtain ⟨x, hpass, hmax, hf⟩ := h.silent S.load_at (exec_load hv) (by omega) (by omega)
  obtain ⟨n, hvia⟩ := hpass.via
  rw [← hdepth] at hvia
  have hstands : Stands m.depth (S.test + 1) x :=
    (stands_iff hf).mpr ⟨(depth_of_frames hf).trans hdepth.symm, rfl⟩
  have hno : r.Storeless (S.test + 1) S.compare :=
    (Expr.code_computes S.stop_eq).storeless S.stop_at
  have hraises : r.Raises x.arity? (S.test + 1) S.compare 1 := hvia.arity?_eq ▸ hS.stop
  obtain ⟨n', y, hvia', hy⟩ := (hm.bound n x hvia hstands).frames hraises hno hf
  -- the bound may call functions, but control in the frame of the loop stays in its code meanwhile
  have hstop : S.Comes callers m vs ⟨r, ls, .int hi :: .int v :: st, S.compare⟩ :=
    comes_of_via hpass hmax hf hraises.closed (by omega) (.inr (by omega)) (by omega) hvia' hy
  exact hstop.silent S.compare_at (exec_binary (direction.test_apply v hi)) (by omega) (by omega)

theorem leaves (h : S.Comes callers m vs ⟨r, ls, .bool false :: st, S.branch⟩) :
    S.Comes callers m vs ⟨r, ls, st, S.done⟩ := by
  have hord := S.order
  obtain ⟨x, hpass, hmax, hf⟩ := h
  obtain ⟨y, hs, hmax', hy⟩ := step_to hmax hf S.branch_at (exec_jumpIfFalse _)
  have hentry : S.begun? (callers.length + 1) x = none := by
    rw [begun?_eq hf]
    exact if_neg fun h => nomatch h.2
  have hne : S.branch ≠ S.done := by omega
  have hquiet := Passes.quiet (toward_of_frames hf hne) hentry hs
  refine ⟨y, ?_, hmax', hy⟩
  simpa using hpass.trans hquiet

theorem enters (hS : S.Poised m.arity?) (hm : S.Orderly hi m)
    (hdepth : m.depth = callers.length + 1)
    (h : S.Comes callers m vs ⟨r, ls, .bool true :: st, S.branch⟩)
    (hv : ls[S.slot]? = some (.int v)) :
    ∃ ls', S.Comes callers m (vs ++ [.int v]) ⟨r, ls', st, S.next⟩ ∧
      ls'[S.slot]? = some (.int v) := by
  have hord := S.order
  obtain ⟨x, hpass, hmax, hf⟩ := h
  obtain ⟨n, hvia⟩ := hpass.via
  have hentry : S.begun? (callers.length + 1) x = some (.int v) := by
    rw [begun?_eq hf]
    exact (if_pos ⟨rfl, rfl⟩).trans hv
  obtain ⟨y, hs, hmax', hy⟩ := step_to hmax hf S.branch_at (exec_jumpIfFalse _)
  have hne : S.branch ≠ S.done := by omega
  -- the branch into the body is the step that tells the value of the variable
  have hpass' := hpass.trans (Passes.heard (toward_of_frames hf hne) hentry hs)
  have hentrance : S.branch + 1 = S.entrance := by omega
  rw [if_pos rfl, hentrance] at hy
  obtain ⟨n', hvia'⟩ := hpass'.via
  have hraises : r.Raises y.arity? S.entrance S.next 0 := hvia'.arity?_eq ▸ hS.body
  rw [← hdepth] at hvia hentry
  obtain ⟨k, z, ls', hvia', hz, hkept⟩ := (hm.body n x _ y hvia hentry hs).frames hraises hy
  refine ⟨ls', ?_, hkept.trans hv⟩
  exact comes_of_via hpass' hmax' hy hraises.closed (by omega) (.inl (by omega)) (by omega) hvia' hz

theorem advances (hslot : S.slot < maxLocals) (h : S.Comes callers m vs ⟨r, ls, st, S.next⟩)
    (hv : ls[S.slot]? = some (.int (direction.nth lo j))) :
    ∃ ls', S.Comes callers m vs ⟨r, ls', st, S.test⟩ ∧
      ls'[S.slot]? = some (.int (direction.nth lo (j + 1))) := by
  have hord := S.order
  have hnext := S.next_at
  have hload := h.silent hnext.head (exec_load hv) (by omega) (by omega)
  have hpush := hload.silent hnext.tail.head exec_push (by omega) (by omega)
  have hstep := hpush.silent hnext.tail.tail.head (exec_binary (direction.step_apply lo j))
    (by omega) (by omega)
  have hstore := hstep.silent hnext.tail.tail.tail.head (exec_store hslot) (by omega) (by omega)
  have hjump := hstore.silent hnext.tail.tail.tail.tail.head exec_jump (by omega) (by omega)
  exact ⟨_, hjump, getElem?_setSlot_self _ _ _⟩

theorem turn (hS : S.Poised m.arity?) (hm : S.Orderly hi m) (hdepth : m.depth = callers.length + 1)
    (hslot : S.slot < maxLocals) (h : S.Comes callers m vs ⟨r, ls, st, S.test⟩)
    (hv : ls[S.slot]? = some (.int (direction.nth lo j)))
    (htest : direction.admits (direction.nth lo j) hi = true) :
    ∃ ls', S.Comes callers m (vs ++ [.int (direction.nth lo j)]) ⟨r, ls', st, S.test⟩ ∧
      ls'[S.slot]? = some (.int (direction.nth lo (j + 1))) := by
  have htested := tests hS hm hdepth h hv
  rw [htest] at htested
  obtain ⟨ls₁, hbody, hkept⟩ := enters hS hm hdepth htested hv
  exact advances hslot hbody hkept

theorem runs (hS : S.Poised m.arity?) (hm : S.Orderly hi m) (hdepth : m.depth = callers.length + 1)
    (hslot : S.slot < maxLocals) (h : S.Comes callers m [] ⟨r, ls, st, S.test⟩)
    (hv : ls[S.slot]? = some (.int lo)) (k : Nat)
    (htest : ∀ j < k, direction.admits (direction.nth lo j) hi = true) :
    ∃ ls', S.Comes callers m (((List.range k).map (direction.nth lo)).map .int)
      ⟨r, ls', st, S.test⟩ ∧ ls'[S.slot]? = some (.int (direction.nth lo k)) := by
  induction k with
  | zero =>
    rw [direction.nth_zero]
    exact ⟨ls, h, hv⟩
  | succ k ih =>
    -- the turns are counted from the first on, as there may be no last one
    obtain ⟨ls₁, hcome, hv₁⟩ := ih fun j hj => htest j (Nat.lt_succ_of_lt hj)
    rw [List.range_succ, List.map_append, List.map_append]
    exact turn hS hm hdepth hslot hcome hv₁ (htest k (Nat.lt_succ_self k))

theorem counts (hS : S.Poised m.arity?) (hmax : m.config.maxSteps = none)
    (hf : m.frames = ⟨r, ls, st, S.first⟩ :: callers) (hslot : S.slot < maxLocals)
    (hy : Delivers S.init (.int lo) m) (hm : S.Orderly hi m) (hne : hi ≠ direction.limit) :
    ∃ ls', S.Comes callers m
      (((List.range (direction.turns lo.toInt hi.toInt)).map (direction.nth lo)).map .int)
        ⟨r, ls', st, S.done⟩ := by
  obtain ⟨ls₁, hcome, hv⟩ := starts hS hmax hf hslot hy
  have hdepth := depth_of_frames hf
  obtain ⟨ls₂, hlast, hv₂⟩ := runs hS hm hdepth hslot hcome hv (direction.turns lo.toInt hi.toInt)
    fun j hj => direction.admits_nth hj
  have htested := tests hS hm hdepth hlast hv₂
  rw [direction.not_admits_nth_turns hne] at htested
  exact ⟨ls₂, leaves htested⟩

theorem endless (hS : S.Poised m.arity?) (hmax : m.config.maxSteps = none)
    (hf : m.frames = ⟨r, ls, st, S.first⟩ :: callers) (hslot : S.slot < maxLocals)
    (hy : Delivers S.init (.int lo) m) (hm : S.Orderly direction.limit m) (k : Nat) :
    ∃ ls', S.Comes callers m (((List.range k).map (direction.nth lo)).map .int)
      ⟨r, ls', st, S.test⟩ := by
  obtain ⟨ls₁, hcome, hv⟩ := starts hS hmax hf hslot hy
  obtain ⟨ls₂, hlast, _⟩ := runs hS hm (depth_of_frames hf) hslot hcome hv k
    fun j _ => direction.admits_limit _
  exact ⟨ls₂, hlast⟩

end CountSite

/-! ## Loops of a program -/

theorem CountSite.slot_lt {S : CountSite d r var start direction stop body} {b : Bytecode}
    {m : Machine} {lo : Int64} {ls : Array Value} {st : List Value} {callers : List Frame}
    (hS : S.Poised m.arity?) (hexec : m.Executing b) (hb : b.checkBalance = .ok ())
    (hf : m.frames = ⟨r, ls, st, S.first⟩ :: callers) (hy : Delivers S.init (.int lo) m) :
    S.slot < maxLocals := by
  have hno : r.Storeless S.first S.init := (Expr.code_computes S.start_eq).storeless S.start_at
  obtain ⟨n, m', hvia, hm'⟩ := hy.frames hS.start hno hf
  exact (hexec.reaches ⟨n, hvia.steps⟩).slot_lt hb hm' S.store_at rfl

variable {p : Program} {c : Catalog} {b : Bytecode} {f : FunDecl}

/-- What has been checked of a loop fixes the heights of the stack along its code. -/
theorem CountSite.poised_of_check {arity : String → Option Nat} {ret : Ty} {Γ Γ' : Scopes Meaning}
    (hp : p.Settled c arity)
    (hcheck : (Stmt.count var start direction stop body).check c ret Γ = .ok Γ')
    (S : CountSite ⟨c, p.records⟩ r var start direction stop body) : S.Poised arity := by
  obtain ⟨_, hstart, hcheck⟩ := bind_eq_ok.mp hcheck
  obtain ⟨_, hstop, hcheck⟩ := bind_eq_ok.mp hcheck
  obtain ⟨_, hbody, _⟩ := bind_eq_ok.mp hcheck
  obtain ⟨g, hinner⟩ := S.inner_eq
  have hstarted := hp.code_adds _ (checkBound_eq_ok hstart) S.start_eq 0 (Nat.le_refl _)
  have hstopped := hp.code_adds _ (checkBound_eq_ok hstop) S.stop_eq 0 (Nat.le_refl _)
  have hleads := generateStmts_leads hp body hbody hinner (Nat.le_refl _)
  exact ⟨(Expr.code_jumpFree S.start_eq).raises hstarted S.start_at,
    (Expr.code_jumpFree S.stop_eq).raises hstopped S.stop_at,
    hleads.raises (generateStmts_enclosed body hinner) S.inner_at⟩

/-- In a run of a checked program its routines have the arities that its loops count on. -/
theorem CountSite.poised_of_executing {m : Machine} (hcheck : p.check = .ok c)
    (hcompile : p.compile c = .ok b) (hf : f ∈ p.funs)
    (hlive : LiveAmong (.count var start direction stop body) f.body) (hexec : m.Executing b)
    (S : CountSite ⟨c, p.records⟩ r var start direction stop body) : S.Poised m.arity? := by
  obtain ⟨hp, hcyc, _, hfuns⟩ := Program.check_eq_ok hcheck
  have harity : m.arity? = (arities b).get? := by
    funext name
    rw [arity?, hexec.routines_eq, Bytecode.arities_get?]
  have hset : p.Settled c m.arity? := ⟨hp, hcyc, harity ▸ Program.arities_of_compile hp hcompile⟩
  obtain ⟨Γ, Γ', hcheck⟩ := LiveAmong.checked f.body hlive (hfuns f hf)
  exact S.poised_of_check hset hcheck

/-- A counted loop of a checked program, in a run of its code: if the bound is `hi` at every test
and the body always ends and keeps the variable, the body is run once for each value from the start
to the bound, in order, and then control is behind the loop with the stack as it was. This fails for
the last word as the bound: then the variable wraps around and there is always another turn. -/
theorem counted_loops_run_through_their_values (hcheck : p.check = .ok c)
    (hcompile : p.compile c = .ok b) (hb : b.checkBalance = .ok ()) (hf : f ∈ p.funs)
    (hlive : LiveAmong (.count var start direction stop body) f.body) :
    ∃ r ∈ b, f.compile ⟨c, p.records⟩ = .ok r ∧
      Nonempty (CountSite ⟨c, p.records⟩ r var start direction stop body) ∧
      ∀ (S : CountSite ⟨c, p.records⟩ r var start direction stop body) (lo hi : Int64) (m : Machine)
        (ls : Array Value) (st : List Value) (callers : List Frame),
        m.Executing b → m.frames = ⟨r, ls, st, S.first⟩ :: callers →
        Delivers S.init (.int lo) m → S.Orderly hi m →
        (hi ≠ direction.limit → ∃ (is : List Int64) (ls' : Array Value),
          is.map Int64.toInt = direction.values lo.toInt hi.toInt ∧
            S.Comes callers m (is.map .int) ⟨r, ls', st, S.done⟩) ∧
        (hi = direction.limit → ∀ k, ∃ ls',
          S.Comes callers m (((List.range k).map (direction.nth lo)).map .int)
            ⟨r, ls', st, S.test⟩) := by
  obtain ⟨r, hr, hrf⟩ := exists_of_forall₂ (mapM_eq_ok.mp hcompile) hf
  refine ⟨r, hr, hrf, (FunDecl.sited_of_live hrf hlive).countSite, ?_⟩
  intro S lo hi m ls st callers hexec hframes hstart hm
  have hS := S.poised_of_executing hcheck hcompile hf hlive hexec
  have hslot := CountSite.slot_lt hS hexec hb hframes hstart
  constructor
  · intro hne
    obtain ⟨ls', hcome⟩ := CountSite.counts hS hexec.maxSteps_eq hframes hslot hstart hm hne
    exact ⟨_, ls', direction.map_toInt_nth lo hi, hcome⟩
  · rintro rfl k
    exact CountSite.endless hS hexec.maxSteps_eq hframes hslot hstart hm k

/-! ## An example -/

namespace Program

def copying (lo hi : Int64) : Program where
  records := []
  funs :=
    [⟨⟨.void, default⟩, name "main", [],
      [.count (name "i") (intExpr lo) .upto (intExpr hi)
        [.declare ⟨name "j", none, pathExpr ["i"]⟩]]⟩]

def copyingCatalog : Catalog := ⟨[], [("main", ⟨[], .void⟩)]⟩

def copyingMain (lo hi : Int64) : Routine :=
  ⟨"main", 0, #[.push (.int lo), .store 0, .load 0, .push (.int hi), .binary .le, .jumpIfFalse 13,
    .load 0, .store 1, .load 0, .push (.int 1), .binary .add, .store 0, .jump 2, .push .nil, .ret]⟩

def copyingStart (lo hi : Int64) : Machine where
  routines := [("main", copyingMain lo hi)]
  frames := [{ routine := copyingMain lo hi }]

variable (lo hi : Int64)

theorem copyingStart_executing (hb : Bytecode.checkBalance [copyingMain lo hi] = .ok ()) :
    (copyingStart lo hi).Executing [copyingMain lo hi] := by
  refine ⟨{}, [], {}, { routines := [("main", copyingMain lo hi)] }, copyingStart lo hi, "main",
    rfl, ?_, rfl, .refl _⟩
  rw [load_fresh, hb]
  rfl

def copyingSite : CountSite ⟨copyingCatalog, []⟩ (copyingMain lo hi) (name "i") (intExpr lo) .upto
    (intExpr hi) [.declare ⟨name "j", none, pathExpr ["i"]⟩] where
  first := 0
  slot := 0
  startCode := [.push (.int lo)]
  stopCode := [.push (.int hi)]
  inner := emits [.load 0, .store 1]
  g := ⟨Scopes.push [], 0, 0⟩
  place := id
  slot_eq := rfl
  start_eq := rfl
  stop_eq := rfl
  inner_eq := ⟨_, rfl⟩
  start_at := .of_take rfl
  store_at := rfl
  load_at := rfl
  stop_at := .of_take rfl
  compare_at := rfl
  branch_at := rfl
  inner_at := ⟨⟨nofun, nofun, trivial⟩, .of_take rfl⟩
  next_at := .of_take rfl

variable {lo hi} {x : Machine} {n : Nat}

theorem copyingStart_delivers : Delivers 1 (.int lo) (copyingStart lo hi) := by
  have hf : (copyingStart lo hi).frames = [⟨copyingMain lo hi, #[], [], 0⟩] := rfl
  obtain ⟨y, hs, _, hy⟩ := step_to rfl hf rfl exec_push
  exact ⟨1, y, _, [], .single (toward_of_frames hf Nat.zero_ne_one) hs, hy, depth_of_frames hy,
    rfl, rfl⟩

/-- The main routine calls nothing, so its frame is alone all the time. -/
theorem copying_frames {callers : List Frame} {f : Frame}
    (h : Via (Toward 1 13) n (copyingStart lo hi) x) (hf : x.frames = f :: callers)
    (hx : x.depth = 1) :
    x.config.maxSteps = none ∧ f.routine = copyingMain lo hi ∧ callers = [] := by
  have hstart : Inside (copyingMain lo hi) [] (copyingStart lo hi) :=
    ⟨[], ⟨copyingMain lo hi, #[], [], 0⟩, rfl, rfl⟩
  have hvia : Via (Toward (List.length (α := Frame) [] + 1) 13) n (copyingStart lo hi) x := h
  obtain ⟨fs, g, hg, hr⟩ := hvia.inside hstart (Nat.le_of_eq hx.symm)
  rw [depth, hg, List.length_append] at hx
  obtain rfl := List.length_eq_zero_iff.mp (Nat.succ.inj hx)
  obtain ⟨rfl, rfl⟩ := List.cons.inj (hf.symm.trans hg)
  exact ⟨h.maxSteps_eq rfl, hr, rfl⟩

theorem copyingStart_orderly : (copyingSite lo hi).Orderly hi (copyingStart lo hi) := by
  constructor
  · rintro n x hvia ⟨⟨r, ls, st, pc⟩, callers, hf, hdepth, hpc⟩
    obtain ⟨hmax, hr, rfl⟩ := copying_frames hvia hf hdepth
    obtain rfl : pc = 3 := hpc
    obtain rfl : r = copyingMain lo hi := hr
    obtain ⟨y, hs, _, hy⟩ := step_to hmax hf rfl exec_push
    refine ⟨1, y, _, [], .single ?_ hs, hy, ?_, rfl, rfl⟩
    · rw [depth_of_frames hf]
      exact toward_of_frames hf (show 3 ≠ 4 by decide)
    · rw [depth_of_frames hf, depth_of_frames hy]
  · intro n x v y hvia hentry hs
    obtain ⟨r, ls, st, callers, hf, hdepth, hv⟩ := CountLayout.begun?_eq_some hentry
    obtain ⟨hmax, hr, rfl⟩ := copying_frames hvia hf hdepth
    obtain rfl : r = copyingMain lo hi := hr
    obtain ⟨y', hs', hmax, hy⟩ := step_to hmax hf rfl (exec_jumpIfFalse true)
    obtain rfl := Progress.running.inj (hs.symm.trans hs')
    obtain ⟨z, hload, hmax, hz⟩ := step_to hmax hy rfl (exec_load hv)
    obtain ⟨w, hstore, _, hw⟩ := step_to hmax hz rfl (exec_store (by decide))
    have hbegun : Toward 1 8 y := toward_of_frames hy (show 6 ≠ 8 by decide)
    have hloaded : Toward 1 8 z := toward_of_frames hz (show 7 ≠ 8 by decide)
    refine ⟨_, [], 2, w, _, [], hy, ?_, hw, ?_, rfl, ?_⟩
    · rw [depth_of_frames hy]
      exact .cons hbegun hload (.single hloaded hstore)
    · rw [depth_of_frames hy, depth_of_frames hw]
    · exact (getElem?_setSlot_of_ne v Nat.zero_ne_one hv).trans hv.symm

theorem one_upto_three_is_counted :
    (copying 1 3).check = .ok copyingCatalog ∧
    (copying 1 3).compile copyingCatalog = .ok [copyingMain 1 3] ∧
    (copyingStart 1 3).Executing [copyingMain 1 3] ∧
    ∃ (is : List Int64) (ls : Array Value), is.map Int64.toInt = [1, 2, 3] ∧
      (copyingSite 1 3).Comes [] (copyingStart 1 3) (is.map .int)
        ⟨copyingMain 1 3, ls, [], 13⟩ := by
  have hcheck : (copying 1 3).check = .ok copyingCatalog := by decide +kernel
  have hcompile : (copying 1 3).compile copyingCatalog = .ok [copyingMain 1 3] := by decide +kernel
  have hb : Bytecode.checkBalance [copyingMain 1 3] = .ok () := by decide +kernel
  have hexec := copyingStart_executing 1 3 hb
  obtain ⟨r, hr, _, _, hcounts⟩ := counted_loops_run_through_their_values hcheck
    hcompile hb (.head _) (.head .self)
  obtain rfl := List.mem_singleton.mp hr
  exact ⟨hcheck, hcompile, hexec,
    (hcounts (copyingSite 1 3) 1 3 (copyingStart 1 3) #[] [] [] hexec rfl copyingStart_delivers
      copyingStart_orderly).1 (by decide)⟩

theorem copying_endless
    (hS : (copyingSite lo .maxValue).Poised (copyingStart lo .maxValue).arity?)
    (vs : List Value) (ls : Array Value) (st : List Value) :
    ¬ (copyingSite lo .maxValue).Comes [] (copyingStart lo .maxValue) vs
      ⟨copyingMain lo .maxValue, ls, st, 13⟩ := by
  intro hcome
  have hslot : 0 < maxLocals := by decide
  obtain ⟨ls', hmore⟩ := CountSite.endless hS rfl rfl hslot
    copyingStart_delivers copyingStart_orderly (vs.length + 1)
  have hle := hcome.length_le rfl hmore
  rw [List.length_map, List.length_map, List.length_range] at hle
  omega

/-- There is one value from the last word to the last word, but the loop does not end. -/
theorem last_upto_last_is_endless :
    (copying .maxValue .maxValue).check = .ok copyingCatalog ∧
    (copying .maxValue .maxValue).compile copyingCatalog = .ok [copyingMain .maxValue .maxValue] ∧
    (copyingStart .maxValue .maxValue).Executing [copyingMain .maxValue .maxValue] ∧
    Delivers 1 (.int .maxValue) (copyingStart .maxValue .maxValue) ∧
    (copyingSite .maxValue .maxValue).Orderly .maxValue (copyingStart .maxValue .maxValue) ∧
    Direction.upto.values (Int64.maxValue).toInt (Int64.maxValue).toInt = [2 ^ 63 - 1] ∧
    ∀ vs ls st, ¬ (copyingSite .maxValue .maxValue).Comes [] (copyingStart .maxValue .maxValue) vs
      ⟨copyingMain .maxValue .maxValue, ls, st, 13⟩ := by
  have hcheck : (copying .maxValue .maxValue).check = .ok copyingCatalog := by decide +kernel
  have hcompile : (copying .maxValue .maxValue).compile copyingCatalog =
      .ok [copyingMain .maxValue .maxValue] := by decide +kernel
  have hb : Bytecode.checkBalance [copyingMain .maxValue .maxValue] = .ok () := by decide +kernel
  have hexec := copyingStart_executing _ _ hb
  have hS := (copyingSite .maxValue .maxValue).poised_of_executing hcheck hcompile (.head _)
    (.head .self) hexec
  exact ⟨hcheck, hcompile, hexec, copyingStart_delivers, copyingStart_orderly, by decide,
    copying_endless hS⟩

end Program

end RecordLang
