import RecordLang.Heap
import RecordLang.Proofs.Table

/-! # The history of a heap

What a heap replies follows from the requests before and their replies alone: how many objects have
been made and with which fields, which of them have been deleted, and what has been written last.
-/

namespace RecordLang.Heap

inductive Request where
  | alloc (fields : List String)
  | free (id : Nat)
  | get (id : Nat) (field : String)
  | set (id : Nat) (field : String) (value : Value)
  deriving DecidableEq

inductive Reply where
  | made (id : Nat)
  | found (value : Value)
  | done
  deriving DecidableEq

def serve (h : Heap) : Request → Except Cause Reply × Heap
  | .alloc fields => (.ok (.made (h.alloc fields).1), (h.alloc fields).2)
  | .free id =>
    match h.free id with
    | .ok h' => (.ok .done, h')
    | .error e => (.error e, h)
  | .get id field => ((h.getField id field).map .found, h)
  | .set id field v =>
    match h.setField id field v with
    | .ok h' => (.ok .done, h')
    | .error e => (.error e, h)

structure Event where
  request : Request
  reply : Except Cause Reply

namespace Event

def made? : Event → Option (List String)
  | ⟨.alloc fields, _⟩ => some fields
  | _ => none

def deleted? : Event → Option Nat
  | ⟨.free id, .ok _⟩ => some id
  | _ => none

def written? (id : Nat) (field : String) : Event → Option Value
  | ⟨.set id' field' v, .ok _⟩ => if id' = id ∧ field' = field then some v else none
  | _ => none

end Event

abbrev History := List Event

namespace History

def makings (past : History) : List (List String) := past.filterMap Event.made?

def deletions (past : History) : List Nat := past.filterMap Event.deleted?

/-- The value that was written last into a field, nil if there was none. -/
def latest (past : History) (id : Nat) (field : String) : Value :=
  (past.filterMap (Event.written? id field)).getLast?.getD .nil

/-- The reply to a request about the object `id`, which `next` finds from the fields that the object
was made with. -/
def onObject (past : History) (id : Nat) (next : List String → Except Cause Reply) :
    Except Cause Reply :=
  if id = 0 ∨ past.makings.length < id then .error (.unknownObject id)
  else if id ∈ past.deletions then .error (.freedObject id)
  else next (past.makings.getD (id - 1) [])

def onField (past : History) (id : Nat) (field : String) (reply : Reply) : Except Cause Reply :=
  past.onObject id fun fields =>
    if field ∈ fields then .ok reply else .error (.noSuchField id field)

def reply (past : History) : Request → Except Cause Reply
  | .alloc _ => .ok (.made (past.makings.length + 1))
  | .free id => past.onObject id fun _ => .ok .done
  | .get id field => past.onField id field (.found (past.latest id field))
  | .set id field _ => past.onField id field .done

def subject (past : History) : Request → Nat
  | .alloc _ => past.makings.length + 1
  | .free id | .get id _ | .set id _ _ => id

end History

/-- All that has happened on a heap, and what the heap has become. -/
structure Record where
  past : History
  heap : Heap

def Record.next (s : Record) (r : Request) : Record :=
  ⟨s.past ++ [⟨r, (s.heap.serve r).1⟩], (s.heap.serve r).2⟩

def record (requests : List Request) : Record := requests.foldl Record.next ⟨[], .empty⟩

/-! ## Objects behind a request -/

variable {h : Heap} {id : Nat} {t : Table Value}

theorem serve_free (h : Heap) (id : Nat) :
    h.serve (.free id) = match h.fields id with
      | .ok _ => (.ok .done, h.replace id none)
      | .error e => (.error e, h) := by
  simp only [serve, free]
  cases h.fields id <;> rfl

theorem serve_get (h : Heap) (id : Nat) (field : String) :
    h.serve (.get id field) = match h.fields id with
      | .ok t => ((t.get? field).elim (.error (.noSuchField id field)) fun v => .ok (.found v), h)
      | .error e => (.error e, h) := by
  simp only [serve, getField]
  cases h.fields id with
  | error e => rfl
  | ok t =>
    dsimp only
    cases t.get? field <;> rfl

theorem serve_set (h : Heap) (id : Nat) (field : String) (v : Value) :
    h.serve (.set id field v) = match h.fields id with
      | .ok t =>
        if t.has field then (.ok .done, h.replace id (some (t.put field v)))
        else (.error (.noSuchField id field), h)
      | .error e => (.error e, h) := by
  simp only [serve, setField]
  cases h.fields id with
  | error e => rfl
  | ok t =>
    dsimp only
    cases t.has field <;> rfl

theorem exists_of_fields_eq_ok (ht : h.fields id = .ok t) :
    ∃ n, id = n + 1 ∧ h.objects[n]? = some (some t) := by
  unfold fields at ht
  split at ht
  next => cases ht
  next n =>
    refine ⟨n, rfl, ?_⟩
    split at ht
    next hn => cases ht; exact hn
    next => cases ht
    next => cases ht

theorem fields_alloc (h : Heap) (fs : List String) (j : Nat) :
    (h.alloc fs).2.fields j =
      if j = h.objects.size + 1 then .ok (fs.map fun f => (f, .nil)) else h.fields j := by
  cases j with
  | zero => rfl
  | succ n =>
    simp only [alloc, fields, Array.getElem?_push, Nat.add_right_cancel_iff]
    by_cases hn : n = h.objects.size
    · rw [if_pos hn, if_pos hn]
    · rw [if_neg hn, if_neg hn]

theorem fields_replace (ht : h.fields id = .ok t) (cell : Option (Table Value)) (j : Nat) :
    (h.replace id cell).fields j =
      if j = id then cell.elim (.error (.freedObject id)) .ok else h.fields j := by
  obtain ⟨n, rfl, hn⟩ := exists_of_fields_eq_ok ht
  have hlt : n < h.objects.size := (Array.getElem?_eq_some_iff.mp hn).1
  cases j with
  | zero => rfl
  | succ m =>
    simp only [replace, fields, Nat.add_sub_cancel, Nat.add_right_cancel_iff,
      Array.getElem?_setIfInBounds]
    by_cases hm : m = n
    · subst hm
      cases cell <;> simp [hlt]
    · simp [hm, Ne.symm hm]

theorem live_alloc (h : Heap) (fs : List String) : (h.alloc fs).2.live = h.live + 1 := by
  simp [alloc, live]

theorem live_replace (ht : h.fields id = .ok t) (cell : Option (Table Value)) :
    (h.replace id cell).live + 1 = h.live + cell.isSome.toNat := by
  obtain ⟨n, rfl, hn⟩ := exists_of_fields_eq_ok ht
  obtain ⟨hlt, hcell⟩ := Array.getElem?_eq_some_iff.mp hn
  have hpos : 0 < h.objects.countP Option.isSome :=
    Array.countP_pos_iff.mpr ⟨some t, hcell ▸ Array.getElem_mem hlt, rfl⟩
  simp only [live, replace, Nat.add_sub_cancel, Array.setIfInBounds, hlt, dif_pos,
    Array.countP_set, hcell]
  cases cell <;> simp <;> omega

theorem get?_initial (fs : List String) (f : String) :
    Table.get? (fs.map fun f => (f, Value.nil)) f = if f ∈ fs then some .nil else none := by
  induction fs with
  | nil => rfl
  | cons g fs ih =>
    rw [List.map_cons, Table.get?_cons, ih]
    by_cases hf : f = g <;> simp [hf]

/-! ## One more event -/

namespace History

variable (past : History) (e : Event)

theorem makings_concat : makings (past ++ [e]) = past.makings ++ e.made?.toList := by
  cases h : e.made? <;> simp [makings, h]

theorem deletions_concat : deletions (past ++ [e]) = past.deletions ++ e.deleted?.toList := by
  cases h : e.deleted? <;> simp [deletions, h]

theorem latest_concat (id : Nat) (f : String) :
    latest (past ++ [e]) id f = (e.written? id f).getD (past.latest id f) := by
  cases h : e.written? id f <;> simp [latest, h]

end History

/-! ## The heap reflects the past -/

variable {past past' : History} {x : Except Cause (Table Value)}

/-- What the past says about the fields of an object. -/
inductive Shows (past : History) (id : Nat) : Except Cause (Table Value) → Prop where
  | unknown (hid : id = 0 ∨ past.makings[id - 1]? = none) :
      Shows past id (.error (.unknownObject id))
  | deleted {fs : List String} (hid : id ≠ 0) (hm : past.makings[id - 1]? = some fs)
      (hd : id ∈ past.deletions) : Shows past id (.error (.freedObject id))
  | live {fs : List String} {t : Table Value} (hid : id ≠ 0) (hm : past.makings[id - 1]? = some fs)
      (hd : id ∉ past.deletions)
      (ht : ∀ f, t.get? f = if f ∈ fs then some (past.latest id f) else none) :
      Shows past id (.ok t)

theorem Shows.congr (h : Shows past id x)
    (hm : id ≠ 0 → past'.makings[id - 1]? = past.makings[id - 1]?)
    (hd : id ∈ past'.deletions ↔ id ∈ past.deletions)
    (hl : ∀ f, past'.latest id f = past.latest id f) : Shows past' id x := by
  cases h with
  | unknown hid =>
    by_cases hzero : id = 0
    · exact .unknown (.inl hzero)
    · exact .unknown (.inr ((hm hzero).trans (hid.resolve_left hzero)))
  | deleted hid hmade hmem => exact .deleted hid ((hm hid).trans hmade) (hd.mpr hmem)
  | live hid hmade hmem ht =>
    refine .live hid ((hm hid).trans hmade) (mt hd.mp hmem) ?_
    intro f
    rw [ht f, hl f]

theorem Shows.onObject_error {e : Cause} (h : Shows past id (.error e))
    (next : List String → Except Cause Reply) : past.onObject id next = .error e := by
  cases h with
  | unknown hid =>
    have hlen : id = 0 ∨ past.makings.length < id := by
      rcases hid with hid | hid
      · exact .inl hid
      · have := List.getElem?_eq_none_iff.mp hid
        omega
    exact if_pos hlen
  | deleted hid hm hd =>
    have hlt := (List.getElem?_eq_some_iff.mp hm).1
    rw [History.onObject, if_neg (by omega), if_pos hd]

theorem Shows.onObject_ok (h : Shows past id (.ok t)) :
    ∃ fs, (∀ next, past.onObject id next = next fs) ∧
      ∀ f, t.get? f = if f ∈ fs then some (past.latest id f) else none := by
  cases h with
  | @live fs _ hid hm hd ht =>
    refine ⟨fs, ?_, ht⟩
    intro next
    have hlt := (List.getElem?_eq_some_iff.mp hm).1
    rw [History.onObject, if_neg (by omega), if_neg hd, List.getD_eq_getElem?_getD, hm,
      Option.getD_some]

/-- The heap is what the past has made of it. -/
structure Reflects (past : History) (h : Heap) : Prop where
  size : h.objects.size = past.makings.length
  shows : ∀ id, Shows past id (h.fields id)
  live : h.live + past.deletions.length = past.makings.length
  /-- Nothing has happened yet to objects that have not been made. -/
  ahead : ∀ id, past.makings.length < id → id ∉ past.deletions ∧ ∀ f, past.latest id f = .nil

namespace Reflects

theorem empty : Reflects [] .empty := by
  refine ⟨rfl, ?_, rfl, fun _ _ => ⟨List.not_mem_nil, fun _ => rfl⟩⟩
  intro id
  cases id <;> exact .unknown (by simp [History.makings])

theorem quiet (hr : Reflects past h) {e : Event} (hm : e.made? = none) (hd : e.deleted? = none)
    (hw : ∀ id f, e.written? id f = none) : Reflects (past ++ [e]) h := by
  have hmakings : History.makings (past ++ [e]) = past.makings := by
    simp [History.makings_concat, hm]
  have hdeletions : History.deletions (past ++ [e]) = past.deletions := by
    simp [History.deletions_concat, hd]
  have hlatest : ∀ id f, History.latest (past ++ [e]) id f = past.latest id f := by
    simp [History.latest_concat, hw]
  refine ⟨hmakings ▸ hr.size, ?_, by rw [hmakings, hdeletions, hr.live], ?_⟩
  · intro id
    exact (hr.shows id).congr (fun _ => by rw [hmakings]) (by rw [hdeletions]) (hlatest id)
  · simpa only [hmakings, hdeletions, hlatest] using hr.ahead

theorem alloc (hr : Reflects past h) (fs : List String) (reply : Except Cause Reply) :
    Reflects (past ++ [⟨.alloc fs, reply⟩]) (h.alloc fs).2 := by
  have hmakings : History.makings (past ++ [⟨.alloc fs, reply⟩]) = past.makings ++ [fs] :=
    History.makings_concat _ _
  have hdeletions : History.deletions (past ++ [⟨.alloc fs, reply⟩]) = past.deletions := by
    simp [History.deletions_concat, Event.deleted?]
  have hlatest : ∀ id f, History.latest (past ++ [⟨.alloc fs, reply⟩]) id f = past.latest id f := by
    simp [History.latest_concat, Event.written?]
  constructor
  · rw [hmakings, List.length_append, ← hr.size]
    exact Array.size_push ..
  · intro id
    rw [fields_alloc]
    split
    next hid =>
      rw [hr.size] at hid
      obtain ⟨hnew, hnil⟩ := hr.ahead id (by omega)
      have hmade : (History.makings (past ++ [⟨.alloc fs, reply⟩]))[id - 1]? = some fs := by
        simp [hmakings, hid]
      refine .live (by omega) hmade (by rwa [hdeletions]) ?_
      intro f
      rw [hlatest, hnil, get?_initial]
    next hid =>
      rw [hr.size] at hid
      refine (hr.shows id).congr ?_ (by rw [hdeletions]) (hlatest id)
      intro hzero
      rw [hmakings, List.getElem?_append]
      split
      next => rfl
      next hge =>
        rw [List.getElem?_eq_none (by simp; omega), List.getElem?_eq_none (by omega)]
  · have hlive := hr.live
    rw [live_alloc, hmakings, hdeletions, List.length_append, List.length_singleton]
    omega
  · intro id hid
    rw [hmakings, List.length_append] at hid
    simpa only [hdeletions, hlatest] using hr.ahead id (by omega)

theorem replace (hr : Reflects past h) (ht : h.fields id = .ok t) {e : Event}
    {cell : Option (Table Value)} (hm : e.made? = none)
    (hother : ∀ j, j ≠ id → e.deleted? ≠ some j ∧ ∀ f, e.written? j f = none)
    (hshow : Shows (past ++ [e]) id (cell.elim (.error (.freedObject id)) .ok))
    (hlive : e.deleted?.toList.length + cell.isSome.toNat = 1) :
    Reflects (past ++ [e]) (h.replace id cell) := by
  have hmakings : History.makings (past ++ [e]) = past.makings := by
    simp [History.makings_concat, hm]
  have hdeletions : ∀ j, j ≠ id → (j ∈ History.deletions (past ++ [e]) ↔ j ∈ past.deletions) := by
    intro j hj
    simp [History.deletions_concat, (hother j hj).1]
  have hlatest : ∀ j, j ≠ id → ∀ f, History.latest (past ++ [e]) j f = past.latest j f := by
    intro j hj f
    simp [History.latest_concat, (hother j hj).2 f]
  constructor
  · rw [hmakings, ← hr.size]
    exact Array.size_setIfInBounds
  · intro j
    rw [fields_replace ht]
    split
    next hj => exact hj ▸ hshow
    next hj =>
      exact (hr.shows j).congr (fun _ => by rw [hmakings]) (hdeletions j hj) (hlatest j hj)
  · have hcount := live_replace ht cell
    have := hr.live
    rw [hmakings, History.deletions_concat, List.length_append]
    omega
  · intro j hj
    rw [hmakings] at hj
    have hne : j ≠ id := by
      obtain ⟨n, rfl, hn⟩ := exists_of_fields_eq_ok ht
      have := (Array.getElem?_eq_some_iff.mp hn).1
      have := hr.size
      omega
    simpa only [hdeletions j hne, hlatest j hne] using hr.ahead j hj

theorem free (hr : Reflects past h) (ht : h.fields id = .ok t) (reply : Reply) :
    Reflects (past ++ [⟨.free id, .ok reply⟩]) (h.replace id none) := by
  refine hr.replace ht rfl ?_ ?_ rfl
  · intro j hj
    exact ⟨fun h => hj (Option.some.inj h).symm, fun _ => rfl⟩
  · have hshow := ht ▸ hr.shows id
    cases hshow with
    | @live fs _ hid hm hd _ =>
      have hmade : (History.makings (past ++ [⟨.free id, .ok reply⟩]))[id - 1]? = some fs := by
        rw [History.makings_concat]
        simpa [Event.made?] using hm
      exact .deleted hid hmade (by simp [History.deletions_concat, Event.deleted?])

theorem set (hr : Reflects past h) (ht : h.fields id = .ok t) {field : String}
    (hfield : t.has field = true) (v : Value) (reply : Reply) :
    Reflects (past ++ [⟨.set id field v, .ok reply⟩]) (h.replace id (some (t.put field v))) := by
  refine hr.replace ht rfl ?_ ?_ rfl
  · intro j hj
    exact ⟨nofun, fun f => if_neg fun h => hj h.1.symm⟩
  · have hshow := ht ▸ hr.shows id
    cases hshow with
    | @live fs _ hid hm hd hget =>
      have hmem : field ∈ fs := by simpa [Table.has, hget] using hfield
      have hmade :
          (History.makings (past ++ [⟨.set id field v, .ok reply⟩]))[id - 1]? = some fs := by
        rw [History.makings_concat]
        simpa [Event.made?] using hm
      refine .live hid hmade ?_ ?_
      · simpa [History.deletions_concat, Event.deleted?] using hd
      · intro f
        rw [Table.get?_put, History.latest_concat, hget]
        by_cases hf : f = field
        · subst hf
          simp [Event.written?, hmem]
        · simp [Event.written?, hf, Ne.symm hf]

end Reflects

/-- One request: the reply is the one that the past asks for, and the heap behind it reflects the
past with this event. -/
theorem Reflects.serve (hr : Reflects past h) (r : Request) :
    (h.serve r).1 = past.reply r ∧ Reflects (past ++ [⟨r, (h.serve r).1⟩]) (h.serve r).2 := by
  cases r with
  | alloc fs => exact ⟨by simp [Heap.serve, Heap.alloc, History.reply, hr.size], hr.alloc fs _⟩
  | free id =>
    have hshow := hr.shows id
    rw [serve_free, History.reply]
    cases ht : h.fields id with
    | error e =>
      rw [ht] at hshow
      exact ⟨(hshow.onObject_error _).symm, hr.quiet rfl rfl fun _ _ => rfl⟩
    | ok t =>
      rw [ht] at hshow
      obtain ⟨fs, hnext, _⟩ := hshow.onObject_ok
      rw [hnext]
      exact ⟨rfl, hr.free ht _⟩
  | get id field =>
    have hshow := hr.shows id
    rw [serve_get, History.reply, History.onField]
    cases ht : h.fields id with
    | error e =>
      rw [ht] at hshow
      exact ⟨(hshow.onObject_error _).symm, hr.quiet rfl rfl fun _ _ => rfl⟩
    | ok t =>
      rw [ht] at hshow
      obtain ⟨fs, hnext, hget⟩ := hshow.onObject_ok
      rw [hnext]
      refine ⟨?_, hr.quiet rfl rfl fun _ _ => rfl⟩
      by_cases hfield : field ∈ fs <;> simp [hget, hfield]
  | set id field v =>
    have hshow := hr.shows id
    rw [serve_set, History.reply, History.onField]
    cases ht : h.fields id with
    | error e =>
      rw [ht] at hshow
      exact ⟨(hshow.onObject_error _).symm, hr.quiet rfl rfl fun _ _ => rfl⟩
    | ok t =>
      rw [ht] at hshow
      obtain ⟨fs, hnext, hget⟩ := hshow.onObject_ok
      have hhas : t.has field = true ↔ field ∈ fs := by simp [Table.has, hget]
      rw [hnext]
      dsimp only
      by_cases hfield : field ∈ fs
      · rw [if_pos hfield, if_pos (hhas.mpr hfield)]
        exact ⟨rfl, hr.set ht (hhas.mpr hfield) v _⟩
      · rw [if_neg hfield, if_neg (mt hhas.mp hfield)]
        exact ⟨rfl, hr.quiet rfl rfl fun _ _ => rfl⟩

theorem record_reflects (requests : List Request) :
    Reflects (record requests).past (record requests).heap := by
  suffices hrun : ∀ s : Record, Reflects s.past s.heap →
      Reflects (requests.foldl Record.next s).past (requests.foldl Record.next s).heap from
    hrun _ .empty
  induction requests with
  | nil => exact fun _ hs => hs
  | cons r requests ih => exact fun s hs => ih (s.next r) (hs.serve r).2

theorem serve_of_error {r : Request} {e : Cause} (he : (h.serve r).1 = .error e) :
    (h.serve r).2 = h := by
  cases r with
  | alloc fs => cases he
  | free id =>
    rw [serve_free] at he ⊢
    cases ht : h.fields id with
    | error e => rfl
    | ok t => rw [ht] at he; cases he
  | get id field => rfl
  | set id field v =>
    rw [serve_set] at he ⊢
    cases ht : h.fields id with
    | error e => rfl
    | ok t =>
      rw [ht] at he
      dsimp only at he ⊢
      split at he
      next => cases he
      next hnot => rw [if_neg hnot]

theorem fields_serve_of_ne (hr : Reflects past h) {r : Request} {j : Nat}
    (hj : j ≠ past.subject r) : (h.serve r).2.fields j = h.fields j := by
  cases r with
  | alloc fs =>
    have hne : j ≠ h.objects.size + 1 := by
      rw [hr.size]
      exact hj
    exact (fields_alloc h fs j).trans (if_neg hne)
  | free id =>
    rw [serve_free]
    cases ht : h.fields id with
    | error e => rfl
    | ok t => exact (fields_replace ht none j).trans (if_neg hj)
  | get id field => rfl
  | set id field v =>
    rw [serve_set]
    cases ht : h.fields id with
    | error e => rfl
    | ok t =>
      dsimp only
      split
      next => exact (fields_replace ht _ j).trans (if_neg hj)
      next => rfl

/-- Behind any row of requests, the heap replies to the next one what the past asks for. If the
request fails, the heap stays as it is; in any case only the object that the request is about can
change. The live objects are those that have been made less those that have been deleted. -/
theorem heap_replies_from_its_history (requests : List Request) (r : Request) :
    ((record requests).heap.serve r).1 = (record requests).past.reply r ∧
      (∀ e, (record requests).past.reply r = .error e →
        ((record requests).heap.serve r).2 = (record requests).heap) ∧
      (∀ id, id ≠ (record requests).past.subject r →
        ((record requests).heap.serve r).2.fields id = (record requests).heap.fields id) ∧
      (record requests).heap.live + (record requests).past.deletions.length =
        (record requests).past.makings.length := by
  have hr := record_reflects requests
  obtain ⟨hreply, _⟩ := hr.serve r
  refine ⟨hreply, ?_, fun id hid => fields_serve_of_ne hr hid, hr.live⟩
  intro e he
  exact serve_of_error (hreply.trans he)

/-- An object is deleted, another one is made, and the first one is written to once more. -/
def stale : List Request :=
  [.alloc ["x", "y", "x"], .set 1 "x" (.int 5), .free 1, .alloc ["y"], .set 1 "x" (.int 7)]

theorem deleted_object_stays_deleted :
    (record stale).past.reply (.get 1 "x") = .error (.freedObject 1) ∧
      ((record stale).heap.serve (.get 1 "x")).1 = .error (.freedObject 1) ∧
      ((record stale).heap.serve (.get 1 "x")).2 = (record stale).heap ∧
      (record stale).heap.live + 1 = 2 := by
  have hpast : (record stale).past.reply (.get 1 "x") = .error (.freedObject 1) := rfl
  obtain ⟨hreply, hkeep, _, hlive⟩ := heap_replies_from_its_history stale (.get 1 "x")
  exact ⟨hpast, hreply.trans hpast, hkeep _ hpast, hlive⟩

end RecordLang.Heap
