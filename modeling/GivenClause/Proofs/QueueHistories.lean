import Mathlib
import GivenClause.Proofs.ScoredSets

/-!
# Histories of a scored set

What a scored set holds is determined by what has been asked of it.  A `Register` writes down every entry
that was ever made, with the scores it was given then, and keeps two lists of places in this log: the
entries that still wait and those that have gone.  `Served` says what each request does to the register,
without a word about how the set goes about it: selection takes the earliest of the entries with the
least score under the weight that is due, and the entries that a clause subsumes go together.

`Describes` ties the register to the queue that the set represents.  `perform_served` is the step.  The
main result follows by induction on the requests, and from `Represents.serve` for the two lists.

Members are objects, told apart by their labels, and `clauseOf` gives the clause of each.  The same
object may be put in several times; its entries then have different places in the log.
-/

namespace GivenClause

/-- The slots of a schedule after it has scored so many clauses. -/
def Schedule.slotsAfter (s : Schedule) (n : ℕ) : List Slot :=
  s.slots.map fun slot => { slot with weight := Weight.advance^[n] slot.weight }

namespace ScoredSet

open Queue

/-! ## The register -/

/-- Every entry ever made, the places of those that wait and of those that have gone, and the schedule as
it stands. -/
structure Register where
  schedule : Schedule
  log : List (Entry Labelled) := []
  waiting : List ℕ := []
  gone : List ℕ := []

namespace Register

variable (r : Register)

/-- A new entry, with the scores that the schedule gives at this time. -/
def enter (x : Labelled) : Register where
  schedule := (r.schedule.evaluate x.clause).2
  log := r.log ++ [⟨x, (r.schedule.evaluate x.clause).1⟩]
  waiting := r.waiting ++ [r.log.length]
  gone := r.gone

/-- The waiting entries at certain places go. -/
def dismiss (p : ℕ → Bool) : Register :=
  { r with waiting := r.waiting.filter fun k => !p k, gone := r.gone ++ r.waiting.filter p }

/-- At place `k` waits the entry `e`. -/
def Waits (k : ℕ) (e : Entry Labelled) : Prop := k ∈ r.waiting ∧ r.log[k]? = some e

/-- At place `k` waits `e`, the earliest entry with a property. -/
structure Earliest (p : Entry Labelled → Prop) (k : ℕ) (e : Entry Labelled) : Prop where
  waits : r.Waits k e
  holds : p e
  least : ∀ j d, r.Waits j d → p d → k ≤ j

/-- No waiting entry has a smaller score under the weight that is due. -/
def Least (e : Entry Labelled) : Prop :=
  ∀ j d, r.Waits j d → Queue.scoreAt r.schedule.current e ≤ Queue.scoreAt r.schedule.current d

/-- The entry at a place is subsumed. -/
def subsumedAt (c : Clause) (k : ℕ) : Bool := r.log[k]?.any fun e => subsumes c e.item.clause

/-- **What a request does.**  What is put in becomes a new entry.  What is taken out is one entry, the
earliest of those that were asked for, or nothing if there are none.  A clause takes with it exactly what
it subsumes. -/
inductive Served (clauseOf : ℕ → Clause) (r : Register) : Request → Reply → Register → Prop
  | insert (label : ℕ) : Served clauseOf r (.insert label) .done (r.enter (member clauseOf label))
  | insertAll (labels : List ℕ) :
      Served clauseOf r (.insertAll labels) .done ((labels.map (member clauseOf)).foldl enter r)
  | noBest : r.waiting = [] → Served clauseOf r .extractBest (.taken none) r
  | best {k : ℕ} {e : Entry Labelled} : r.Earliest r.Least k e →
      Served clauseOf r .extractBest (.taken (some e.item))
        { r.dismiss (· = k) with schedule := r.schedule.next.2 }
  | noFirst : r.waiting = [] → Served clauseOf r .extractFirst (.taken none) r
  | first {k : ℕ} {e : Entry Labelled} : r.Earliest (fun _ => True) k e →
      Served clauseOf r .extractFirst (.taken (some e.item)) (r.dismiss (· = k))
  | absent {label : ℕ} : (∀ k e, r.Waits k e → e.item.label ≠ label) →
      Served clauseOf r (.extract label) (.refused (.notAMember ⟨(clauseOf label).name⟩)) r
  | extract {label k : ℕ} {e : Entry Labelled} : r.Earliest (·.item.label = label) k e →
      Served clauseOf r (.extract label) (.taken (some e.item)) (r.dismiss (· = k))
  | removeSubsumed (c : Clause) :
      Served clauseOf r (.removeSubsumed c) (.removed (r.waiting.countP (r.subsumedAt c)))
        (r.dismiss (r.subsumedAt c))

/-- Several requests, served one after the other. -/
inductive Service (clauseOf : ℕ → Clause) : Register → List Request → List Reply → Register → Prop
  | nil (r : Register) : Service clauseOf r [] [] r
  | cons {r r' r'' : Register} {request : Request} {reply : Reply} {requests : List Request}
      {replies : List Reply} : Served clauseOf r request reply r' →
      Service clauseOf r' requests replies r'' →
      Service clauseOf r (request :: requests) (reply :: replies) r''

/-- The queue as the register has it.  Its columns of members and of scores are those of the waiting
entries, as they were put down, in the order of the log.  No entry of the log is lost or stands twice.
The scores of the `k`-th entry are those that its clause had when `k` clauses had been scored before it;
so there is one under each weight, and the weight that is due is one of them. -/
structure Describes (clauseOf : ℕ → Clause) (start : Schedule) (r : Register) (q : Queue Labelled) :
    Prop where
  schedule : q.schedule = r.schedule
  aligned : r.waiting.map (fun k => r.log[k]?) = q.entries.map some
  ordered : r.waiting.Pairwise (· < ·)
  complete : (r.waiting ++ r.gone).Perm (List.range r.log.length)
  genuine : ∀ e ∈ r.log, e.item = member clauseOf e.item.label
  slots : r.schedule.slots = start.slotsAfter r.log.length
  scored : ∀ k e, r.log[k]? = some e →
    e.scores = (start.slotsAfter k).map fun slot => slot.weight.score e.item.clause
  inTurn : r.schedule.InTurn

section Describing

variable {clauseOf : ℕ → Clause} {start : Schedule} {r : Register} {q : Queue Labelled}

/-- An empty register describes an empty queue. -/
lemma describes_empty (h : start.InTurn) :
    Describes clauseOf start { schedule := start } { schedule := start } :=
  ⟨rfl, rfl, .nil, .nil, by simp, by simp [Schedule.slotsAfter], by simp, h⟩

lemma Describes.mem_entries (h : r.Describes clauseOf start q) {e : Entry Labelled} :
    e ∈ q.entries ↔ ∃ k, r.Waits k e := by
  have hmem : some e ∈ r.waiting.map (fun k => r.log[k]?) ↔ some e ∈ q.entries.map some := by
    rw [h.aligned]
  simpa [Waits] using hmem.symm

lemma Describes.waiting_eq_nil (h : r.Describes clauseOf start q) : r.waiting = [] ↔ q.entries = [] := by
  rw [← List.map_eq_nil_iff (f := fun k => r.log[k]?), h.aligned, List.map_eq_nil_iff]

lemma Describes.lt_length (h : r.Describes clauseOf start q) {k : ℕ} (hk : k ∈ r.waiting) :
    k < r.log.length :=
  List.mem_range.1 (h.complete.subset (List.mem_append_left _ hk))

lemma Describes.item_eq (h : r.Describes clauseOf start q) {e : Entry Labelled} (he : e ∈ q.entries) :
    e.item = member clauseOf e.item.label := by
  obtain ⟨k, -, hk⟩ := h.mem_entries.1 he
  exact h.genuine e (List.mem_of_getElem? hk)

/-! ### One request -/

/-- What is put in comes behind all others, in the log and in the queue. -/
lemma Describes.enter (h : r.Describes clauseOf start q) (label : ℕ) :
    (r.enter (member clauseOf label)).Describes clauseOf start (q.insert (member clauseOf label)) where
  schedule := congrArg (fun s : Schedule => (s.evaluate (clauseOf label)).2) h.schedule
  aligned := by
    have hold : r.waiting.map (fun k => (r.enter (member clauseOf label)).log[k]?) =
        r.waiting.map fun k => r.log[k]? :=
      List.map_congr_left fun k hk => List.getElem?_append_left (h.lt_length hk)
    have hnew : (r.enter (member clauseOf label)).log[r.log.length]? =
        some ⟨member clauseOf label, (q.schedule.evaluate (clauseOf label)).1⟩ := by
      rw [h.schedule]
      exact List.getElem?_concat_length
    have hentries : (q.insert (member clauseOf label)).entries =
        q.entries ++ [⟨member clauseOf label, (q.schedule.evaluate (clauseOf label)).1⟩] := rfl
    rw [hentries, List.map_append, ← h.aligned, ← hold, List.map_singleton, ← hnew]
    exact List.map_append
  ordered := by
    refine List.pairwise_append.2 ⟨h.ordered, List.pairwise_singleton _ _, fun k hk j hj => ?_⟩
    rw [List.mem_singleton.1 hj]
    exact h.lt_length hk
  complete := by
    have hlast : (r.waiting ++ [r.log.length] ++ r.gone).Perm
        (r.waiting ++ r.gone ++ [r.log.length]) := by
      rw [List.append_assoc, List.append_assoc]
      exact List.perm_append_comm.append_left r.waiting
    rw [Register.enter, List.length_append, List.length_singleton, List.range_succ]
    exact hlast.trans (h.complete.append_right _)
  genuine := by
    intro e he
    rcases List.mem_append.1 he with he | he
    · exact h.genuine e he
    · rw [List.mem_singleton.1 he]
      rfl
  slots := by
    have hslots : (r.enter (member clauseOf label)).schedule.slots =
        r.schedule.slots.map fun slot => { slot with weight := slot.weight.advance } := rfl
    rw [hslots, h.slots, Register.enter, List.length_append, List.length_singleton, Schedule.slotsAfter,
      Schedule.slotsAfter, List.map_map]
    exact List.map_congr_left fun slot _ => by
      rw [Function.iterate_succ_apply']
      rfl
  scored := by
    intro k e he
    rcases Nat.lt_or_ge k r.log.length with hk | hk
    · exact h.scored k e ((List.getElem?_append_left hk).symm.trans he)
    · obtain ⟨hlt, hget⟩ := List.getElem?_eq_some_iff.1 ((List.getElem?_append_right hk).symm.trans he)
      obtain rfl : k = r.log.length := by
        rw [List.length_singleton] at hlt
        omega
      rw [← hget, List.getElem_singleton, ← h.slots]
      rfl
  inTurn := h.inTurn.evaluate (clauseOf label)

lemma Describes.enterAll (h : r.Describes clauseOf start q) (labels : List ℕ) :
    ((labels.map (member clauseOf)).foldl Register.enter r).Describes clauseOf start
      (q.insertAll (labels.map (member clauseOf))) := by
  induction labels generalizing r q with
  | nil => exact h
  | cons label labels ih => exact ih (h.enter label)

/-- Entries go from the queue as they go from the register. -/
lemma Describes.dismiss (h : r.Describes clauseOf start q) {p : ℕ → Bool} {entries : List (Entry Labelled)}
    (hentries : (r.waiting.filter fun k => !p k).map (fun k => r.log[k]?) = entries.map some) :
    (r.dismiss p).Describes clauseOf start ⟨q.schedule, entries⟩ where
  schedule := h.schedule
  aligned := hentries
  ordered := h.ordered.filter _
  complete := by
    have hparts : ((r.waiting.filter fun k => !p k) ++ (r.gone ++ r.waiting.filter p)).Perm
        (r.waiting.filter p ++ (r.waiting.filter fun k => !p k) ++ r.gone) := by
      rw [← List.append_assoc, List.append_assoc (r.waiting.filter p)]
      exact List.perm_append_comm
    exact hparts.trans (((List.filter_append_perm p r.waiting).append_right r.gone).trans h.complete)
  genuine := h.genuine
  slots := h.slots
  scored := h.scored
  inTurn := h.inTurn

/-- Where the queue has a first entry with a property, the register has the earliest. -/
lemma Describes.earliest (h : r.Describes clauseOf start q) {p : Entry Labelled → Prop}
    {before after : List (Entry Labelled)} {e : Entry Labelled}
    (hentries : q.entries = before ++ e :: after) (he : p e) (hbefore : ∀ d ∈ before, ¬ p d) :
    ∃ k, r.Earliest p k e ∧
      (r.dismiss (· = k)).Describes clauseOf start ⟨q.schedule, before ++ after⟩ := by
  have haligned := h.aligned
  rw [hentries, List.map_append, List.map_cons] at haligned
  obtain ⟨older, rest, hwaiting, holder, hrest⟩ := List.map_eq_append_iff.1 haligned
  obtain ⟨k, younger, rfl, hk, hyounger⟩ := List.map_eq_cons_iff.1 hrest
  have hordered := h.ordered
  rw [hwaiting, List.pairwise_append, List.pairwise_cons] at hordered
  obtain ⟨-, ⟨hafter, -⟩, hacross⟩ := hordered
  have hlt : ∀ j ∈ older, j < k := fun j hj => hacross j hj k List.mem_cons_self
  refine ⟨k, ⟨⟨by simp [hwaiting], hk⟩, he, ?_⟩, h.dismiss ?_⟩
  · intro j d hwaits hd
    obtain ⟨hj, hjd⟩ := hwaits
    rw [hwaiting, List.mem_append, List.mem_cons] at hj
    rcases hj with hj | rfl | hj
    · have hmem : some d ∈ before.map some := by
        rw [← holder, ← hjd]
        exact List.mem_map_of_mem hj
      exact absurd hd (hbefore d (by simpa using hmem))
    · exact le_rfl
    · exact (hafter j hj).le
  · have holder' : older.filter (fun j => !decide (j = k)) = older :=
      List.filter_eq_self.2 fun j hj => by simpa using (hlt j hj).ne
    have hyounger' : younger.filter (fun j => !decide (j = k)) = younger :=
      List.filter_eq_self.2 fun j hj => by simpa using (hafter j hj).ne'
    rw [hwaiting, List.filter_append, holder', List.filter_cons_of_neg (by simp), hyounger',
      List.map_append, holder, hyounger, List.map_append]

/-- A selection moves the schedule and leaves the scores as they are. -/
lemma Describes.next (h : r.Describes clauseOf start q) :
    Describes clauseOf start { r with schedule := r.schedule.next.2 } ⟨q.schedule.next.2, q.entries⟩ where
  schedule := congrArg (fun s : Schedule => s.next.2) h.schedule
  aligned := h.aligned
  ordered := h.ordered
  complete := h.complete
  genuine := h.genuine
  slots := (Schedule.slots_next _).trans h.slots
  scored := h.scored
  inTurn := h.inTurn.next

lemma Describes.extractBest (h : r.Describes clauseOf start q) :
    ∃ r', r.Served clauseOf .extractBest (q.perform clauseOf .extractBest).1 r' ∧
      r'.Describes clauseOf start (q.perform clauseOf .extractBest).2 := by
  rw [Queue.perform]
  cases hbest : q.extractBest with
  | none =>
      have hempty : q.entries = [] := List.isEmpty_iff.1 (extractBest_eq_none_iff.1 hbest)
      exact ⟨r, .noBest (h.waiting_eq_nil.2 hempty), h⟩
  | some taken =>
      obtain ⟨x, rest⟩ := taken
      obtain ⟨before, e, after, hentries, rfl, rfl, hmin, hfirst⟩ := extractBest_least hbest
      rw [q.schedule.next_fst, h.schedule] at hmin hfirst
      have hleast : r.Least e := fun j d hd => hmin d (h.mem_entries.2 ⟨j, hd⟩)
      -- An entry before `e` with the least score would have the score of `e`.
      have hbefore : ∀ d ∈ before, ¬ r.Least d := by
        intro d hd hdleast
        obtain ⟨j, hj⟩ := h.mem_entries.1 (hentries ▸ List.mem_append_right before List.mem_cons_self)
        exact hfirst d hd (le_antisymm (hdleast j e hj) (hmin d (hentries ▸ List.mem_append_left _ hd)))
      obtain ⟨k, hearliest, hdescribes⟩ := h.earliest hentries hleast hbefore
      exact ⟨_, .best hearliest, hdescribes.next⟩

lemma Describes.extractFirst (h : r.Describes clauseOf start q) :
    ∃ r', r.Served clauseOf .extractFirst (q.perform clauseOf .extractFirst).1 r' ∧
      r'.Describes clauseOf start (q.perform clauseOf .extractFirst).2 := by
  obtain ⟨schedule, entries⟩ := q
  cases entries with
  | nil => exact ⟨r, .noFirst (h.waiting_eq_nil.2 rfl), h⟩
  | cons e rest =>
      have hsplit : e :: rest = [] ++ e :: rest := rfl
      obtain ⟨k, hearliest, hdescribes⟩ := h.earliest (p := fun _ => True) hsplit trivial (by simp)
      exact ⟨_, .first hearliest, hdescribes⟩

lemma Describes.extract (h : r.Describes clauseOf start q) (label : ℕ) :
    ∃ r', r.Served clauseOf (.extract label) (q.perform clauseOf (.extract label)).1 r' ∧
      r'.Describes clauseOf start (q.perform clauseOf (.extract label)).2 := by
  rw [Queue.perform]
  rcases ClauseSet.extractBy_cases Entry.item (member clauseOf label) q.entries
    with ⟨herror, hall⟩ | ⟨before, e, after, hentries, he, hbefore, hok⟩
  · rw [herror]
    exact ⟨r, .absent fun k e hwaits => hall e (h.mem_entries.2 ⟨k, hwaits⟩), h⟩
  · rw [hok]
    obtain ⟨k, hearliest, hdescribes⟩ := h.earliest (p := (·.item.label = label)) hentries he hbefore
    have hitem : e.item = member clauseOf label := by
      rw [h.item_eq (hentries ▸ List.mem_append_right before List.mem_cons_self), hearliest.holds]
    exact ⟨_, hitem ▸ .extract hearliest, hdescribes⟩

lemma Describes.removeSubsumed (h : r.Describes clauseOf start q) (c : Clause) :
    ∃ r', r.Served clauseOf (.removeSubsumed c) (q.perform clauseOf (.removeSubsumed c)).1 r' ∧
      r'.Describes clauseOf start (q.perform clauseOf (.removeSubsumed c)).2 := by
  have hcount : q.entries.countP (fun e => subsumes c e.item.clause) =
      r.waiting.countP (r.subsumedAt c) := by
    calc q.entries.countP (fun e => subsumes c e.item.clause)
        = (q.entries.map some).countP (Option.any fun e => subsumes c e.item.clause) := by
          rw [List.countP_map]
          rfl
      _ = r.waiting.countP (r.subsumedAt c) := by
          rw [← h.aligned, List.countP_map]
          rfl
  have hkept : (r.waiting.filter fun k => !r.subsumedAt c k).map (fun k => r.log[k]?) =
      (q.entries.filter fun e => !subsumes c e.item.clause).map some := by
    calc (r.waiting.filter fun k => !r.subsumedAt c k).map (fun k => r.log[k]?)
        = (q.entries.map some).filter (fun e => !e.any fun e => subsumes c e.item.clause) := by
          rw [← h.aligned, List.filter_map]
          rfl
      _ = (q.entries.filter fun e => !subsumes c e.item.clause).map some := by
          rw [List.filter_map]
          rfl
  rw [Queue.perform, hcount]
  exact ⟨_, .removeSubsumed c, h.dismiss hkept⟩

/-- Every request is served. -/
theorem Describes.perform_served (h : r.Describes clauseOf start q) (request : Request) :
    ∃ r', r.Served clauseOf request (q.perform clauseOf request).1 r' ∧
      r'.Describes clauseOf start (q.perform clauseOf request).2 := by
  cases request with
  | insert label => exact ⟨_, .insert label, h.enter label⟩
  | insertAll labels => exact ⟨_, .insertAll labels, h.enterAll labels⟩
  | extractBest => exact h.extractBest
  | extractFirst => exact h.extractFirst
  | extract label => exact h.extract label
  | removeSubsumed c => exact h.removeSubsumed c

theorem Describes.answerAll_service (h : r.Describes clauseOf start q) (requests : List Request) :
    ∃ r', Service clauseOf r requests (answerAll (Queue.perform clauseOf) q requests).1 r' ∧
      r'.Describes clauseOf start (answerAll (Queue.perform clauseOf) q requests).2 := by
  induction requests generalizing r q with
  | nil => exact ⟨r, .nil r, h⟩
  | cons request requests ih =>
      obtain ⟨r', hserved, h'⟩ := h.perform_served request
      obtain ⟨r'', hservice, h''⟩ := ih h'
      exact ⟨r'', .cons hserved hservice, h''⟩

end Describing

end Register

open Register

/-- **A queue holds what its history says.**  Let a set start empty, with any schedule.  However often
and in whatever order members are put in and taken out, every request is served as `Served` has it: none
fails, but for a member that is not there; selection from a set that is not empty takes the earliest of
the entries with the least score under the weight that is due; and a clause takes with it exactly the
entries that it subsumes, and their number is the answer.  Afterwards the set has as many scores as
members.  Those at the same place are an entry of the log, as `Describes` has it: all entries that have
not gone are there, in their order, with the scores that they were given when they came. -/
theorem queue_holds_its_history (clauseOf : ℕ → Clause) {schedule : Schedule}
    (inTurn : schedule.InTurn) (requests : List Request) :
    ∃ r, Service clauseOf { schedule } requests (serve clauseOf schedule requests).1 r ∧
      (serve clauseOf schedule requests).2.scores.length =
        (serve clauseOf schedule requests).2.members.length ∧
      r.Describes clauseOf schedule (serve clauseOf schedule requests).2.queue := by
  obtain ⟨hreplies, hset⟩ := Represents.serve clauseOf inTurn requests
  rw [hreplies, hset.queue_eq]
  obtain ⟨r, hservice, hdescribes⟩ := (describes_empty inTurn).answerAll_service requests
  exact ⟨r, hservice, hset.length_eq, hdescribes⟩

/-- Selections by size and by age in turn. -/
def alternating : Schedule := .start "alternating" [⟨1, .standardCount⟩, ⟨1, .freshAge⟩]

/-- Three objects: the clauses `q(a)`, `p(X)` and `p(a)`. -/
def exhibit : ℕ → Clause
  | 0 => { literals := [⟨true, "q", [.app "a" []]⟩], name := "c0" }
  | 1 => { literals := [⟨true, "p", [.var "X"]⟩], name := "c1" }
  | _ => { literals := [⟨true, "p", [.app "a" []]⟩], name := "c2" }

def errands : List Request :=
  [.insertAll [2, 0, 2], .extractBest, .insert 1, .removeSubsumed (exhibit 1), .extract 2]

/-- The last object is put in twice.  Its first entry ties with `q(a)` and is selected; its second is
subsumed by `p(X)`, which subsumes itself as well, so that in the end it is refused. -/
theorem errands_served :
    alternating.InTurn ∧
      serve exhibit alternating errands =
        ([.done, .taken (some (member exhibit 2)), .done, .removed 2, .refused (.notAMember ⟨"c2"⟩)],
          ⟨⟨"alternating", [⟨1, .standardCount⟩, ⟨1, .age 4⟩], 1, 1⟩, [member exhibit 0], [[4, 2]]⟩) ∧
      ∃ r, Service exhibit { schedule := alternating } errands (serve exhibit alternating errands).1 r ∧
        r.Describes exhibit alternating (serve exhibit alternating errands).2.queue := by
  have hturn : alternating.InTurn := Schedule.inTurn_start _ (by simp) (by decide)
  obtain ⟨r, hservice, -, hdescribes⟩ := queue_holds_its_history exhibit hturn errands
  exact ⟨hturn, by decide +kernel, r, hservice, hdescribes⟩

end ScoredSet

end GivenClause
