import Mathlib
import GivenClause.Proofs.Computations
import GivenClause.Proofs.Queues
import GivenClause.Proofs.Removal
import GivenClause.Proofs.RoundRobin
import GivenClause.ScoredSet

/-!
# Two lists in step

A scored set keeps its members and their scores in two lists, and each of its operations changes the one
and the other.  A queue keeps each member in an entry with its scores, so there is nothing to get out of
step.  A set `Represents` a queue if its lists are the two columns of the entries.

`Represents.perform` is the refinement: a set and the queue that it represents give the same answer to
every request, and the set goes on to represent the queue.  No operation fails for want of scores, for it
finds them at the place of the member.  The steps are

* what is put in is one more row, at the end of both columns (`Represents.add`);
* what is taken out at a place leaves both columns without this place (`delete_column`);
* the place of least score is the one of the entry that the queue selects
  (`Represents.leastFrom_eq`), and the place of a label that of the first entry with it;
* of the loop that takes out what a clause subsumes, every round is of the second kind.

The queue has to be `Orderly` for this: its schedule is in turn, every entry has a score under every
weight, and the label of a member tells its clause.
-/

namespace GivenClause

open ClauseSet

namespace ScoredSet

/-! ## Requests -/

/-- What can be asked of a set; members are given by their labels. -/
inductive Request where
  | insert (label : ℕ)
  | insertAll (labels : List ℕ)
  | extractBest
  | extractFirst
  | extract (label : ℕ)
  | removeSubsumed (c : Clause)
  deriving DecidableEq

/-- What is answered. -/
inductive Reply where
  | done
  /-- The member that was taken out, if there was one. -/
  | taken (x : Option Labelled)
  | refused (reason : Failure)
  | removed (count : ℕ)
  deriving DecidableEq

/-- The answers to several requests, one after the other, and what is there after them. -/
def answerAll {σ : Type} (answer : σ → Request → Reply × σ) (set : σ) :
    List Request → List Reply × σ
  | [] => ([], set)
  | request :: requests =>
      let (reply, next) := answer set request
      let (replies, last) := answerAll answer next requests
      (reply :: replies, last)

lemma answerAll_append {σ : Type} (answer : σ → Request → Reply × σ) (set : σ)
    (past future : List Request) :
    (answerAll answer set (past ++ future)).2 =
      (answerAll answer (answerAll answer set past).2 future).2 := by
  induction past generalizing set with
  | nil => rfl
  | cons request past ih => exact ih (answer set request).2

section Performing

variable (clauseOf : ℕ → Clause)

/-- The object with a label. -/
def member (label : ℕ) : Labelled := ⟨label, clauseOf label⟩

/-- What came of a request; one that fails leaves the set as it is. -/
def settle (set : ScoredSet Labelled) :
    Except Failure (Reply × ScoredSet Labelled) → Reply × ScoredSet Labelled
  | .ok outcome => outcome
  | .error reason => (.refused reason, set)

/-- The answer to a request, and the set after it. -/
def perform (set : ScoredSet Labelled) : Request → Reply × ScoredSet Labelled
  | .insert label => (.done, set.add (member clauseOf label))
  | .insertAll labels => (.done, set.addAll (labels.map (member clauseOf)))
  | .extractBest => settle set do
      let (x, rest) ← set.extractBest.mapError .index
      return (.taken x, rest)
  | .extractFirst => settle set do
      let (x, rest) ← set.extractFirst.mapError .index
      return (.taken x, rest)
  | .extract label => settle set do
      let rest ← set.extract (member clauseOf label)
      return (.taken (some (member clauseOf label)), rest)
  | .removeSubsumed c => settle set do
      let (count, rest) ← set.removeSubsumed c
      return (.removed count, rest)

/-- The answers of a new set to several requests, and what it is after them. -/
def serve (schedule : Schedule) (requests : List Request) : List Reply × ScoredSet Labelled :=
  answerAll (perform clauseOf) { schedule } requests

end Performing

end ScoredSet

open ScoredSet

namespace Queue

/-- The answer of a queue to a request, and the queue after it.  What a clause subsumes goes at once. -/
def perform (clauseOf : ℕ → Clause) (q : Queue Labelled) : Request → Reply × Queue Labelled
  | .insert label => (.done, q.insert (member clauseOf label))
  | .insertAll labels => (.done, q.insertAll (labels.map (member clauseOf)))
  | .extractBest =>
      match q.extractBest with
      | none => (.taken none, q)
      | some (x, rest) => (.taken (some x), rest)
  | .extractFirst => (.taken q.items.head?, { q with entries := q.entries.tail })
  | .extract label =>
      match extractBy Entry.item (member clauseOf label) q.entries with
      | .ok rest => (.taken (some (member clauseOf label)), { q with entries := rest })
      | .error reason => (.refused (.notAMember reason), q)
  | .removeSubsumed c =>
      (.removed (q.entries.countP fun e => subsumes c e.item.clause),
        { q with entries := q.entries.filter fun e => !subsumes c e.item.clause })

/-- The requests that take out certain members. -/
def Removes : Request → Prop
  | .extractFirst | .extract _ | .removeSubsumed _ => True
  | _ => False

/-- They leave the schedule as it is and the other entries in their order. -/
lemma perform_of_removes (clauseOf : ℕ → Clause) (q : Queue Labelled) {request : Request}
    (h : Removes request) :
    ∃ rest, rest.Sublist q.entries ∧ (q.perform clauseOf request).2 = { q with entries := rest } := by
  cases request with
  | insert label | insertAll labels | extractBest => exact h.elim
  | extractFirst => exact ⟨_, List.tail_sublist _, rfl⟩
  | extract label =>
      rw [perform]
      rcases extractBy_cases Entry.item (member clauseOf label) q.entries with
        ⟨herror, -⟩ | ⟨before, e, after, hentries, -, -, hok⟩
      · rw [herror]
        exact ⟨q.entries, .refl _, rfl⟩
      · rw [hok, hentries]
        exact ⟨_, (List.Sublist.refl before).append (List.sublist_cons_self e after), rfl⟩
  | removeSubsumed c => exact ⟨_, List.filter_sublist, rfl⟩

/-! ## Orderly queues -/

/-- The schedule is in turn, every entry has a score under every weight, and the members are the
objects of their labels. -/
structure Orderly (clauseOf : ℕ → Clause) (q : Queue Labelled) : Prop where
  inTurn : q.schedule.InTurn
  full : ∀ e ∈ q.entries, e.scores.length = q.schedule.slots.length
  genuine : ∀ e ∈ q.entries, e.item = member clauseOf e.item.label

section Orderly

variable {clauseOf : ℕ → Clause} {q q' : Queue Labelled}

lemma orderly_empty {schedule : Schedule} (h : schedule.InTurn) : Orderly clauseOf { schedule } :=
  ⟨h, by simp, by simp⟩

lemma Orderly.labelsTell (h : Orderly clauseOf q) : LabelsTell Entry.item q.entries := by
  intro e he d hd hlabel
  rw [h.genuine e he, h.genuine d hd, hlabel]

lemma Orderly.mono (h : Orderly clauseOf q) (hturn : q'.schedule.InTurn)
    (hslots : q'.schedule.slots = q.schedule.slots) (hentries : q'.entries ⊆ q.entries) :
    Orderly clauseOf q' :=
  ⟨hturn, fun e he => hslots ▸ h.full e (hentries he), fun e he => h.genuine e (hentries he)⟩

lemma Orderly.insert (h : Orderly clauseOf q) (label : ℕ) :
    Orderly clauseOf (q.insert (member clauseOf label)) where
  inTurn := h.inTurn.evaluate (clauseOf label)
  full := by
    intro e he
    rcases List.mem_append.1 he with he | he
    · simpa [Queue.insert, Schedule.evaluate] using h.full e he
    · rw [List.mem_singleton.1 he]
      simp [Queue.insert, Schedule.evaluate]
  genuine := by
    intro e he
    rcases List.mem_append.1 he with he | he
    · exact h.genuine e he
    · rw [List.mem_singleton.1 he]
      rfl

lemma Orderly.perform (h : Orderly clauseOf q) (request : Request) :
    Orderly clauseOf (q.perform clauseOf request).2 := by
  have hremoves : Removes request → Orderly clauseOf (q.perform clauseOf request).2 := by
    intro hrequest
    obtain ⟨rest, hrest, hq⟩ := perform_of_removes clauseOf q hrequest
    exact hq ▸ h.mono h.inTurn rfl hrest.subset
  cases request with
  | insert label => exact h.insert label
  | insertAll labels =>
      show Orderly clauseOf (q.insertAll (labels.map (member clauseOf)))
      induction labels generalizing q with
      | nil => exact h
      | cons label labels ih => exact ih (h.insert label) fun hfalse => hfalse.elim
  | extractBest =>
      rw [Queue.perform]
      cases hbest : q.extractBest with
      | none => exact h
      | some taken =>
          have hschedule := schedule_extractBest hbest
          exact h.mono (hschedule ▸ h.inTurn.next) (hschedule ▸ q.schedule.slots_next)
            (entries_extractBest_sublist hbest).subset
  | extractFirst | extract label | removeSubsumed c => exact hremoves trivial

end Orderly

end Queue

/-! ## The place of least score -/

/-- Of the first `n` places, `k` is the first that has the least value. -/
structure FirstLeast (value : ℕ → ℤ) (n k : ℕ) : Prop where
  lt : k < n
  least : ∀ j < n, value k ≤ value j
  first : ∀ j < k, value k < value j

lemma FirstLeast.unique {value : ℕ → ℤ} {n j k : ℕ} (hj : FirstLeast value n j)
    (hk : FirstLeast value n k) : j = k := by
  rcases lt_trichotomy j k with hlt | heq | hlt
  · exact absurd (hj.least k hk.lt) (hk.first j hlt).not_ge
  · exact heq
  · exact absurd (hk.least j hj.lt) (hj.first k hlt).not_ge

lemma firstLeast_one (value : ℕ → ℤ) : FirstLeast value 1 0 :=
  ⟨Nat.one_pos, fun j hj => by rw [Nat.lt_one_iff.1 hj], fun j hj => (Nat.not_lt_zero j hj).elim⟩

section Values

variable {α : Type} {due : ℕ} {entries : List (Entry α)}

/-- The scores of entries under a weight, place by place. -/
def valueAt (due : ℕ) (entries : List (Entry α)) (i : ℕ) : ℤ :=
  (entries[i]?.map (Queue.scoreAt due)).getD 0

lemma valueAt_eq {i : ℕ} {e : Entry α} (h : entries[i]? = some e) :
    valueAt due entries i = Queue.scoreAt due e := by
  simp [valueAt, h]

lemma firstLeast_of_split {before after : List (Entry α)} {e : Entry α}
    (hentries : entries = before ++ e :: after)
    (hmin : ∀ d ∈ entries, Queue.scoreAt due e ≤ Queue.scoreAt due d)
    (hfirst : ∀ d ∈ before, Queue.scoreAt due d ≠ Queue.scoreAt due e) :
    FirstLeast (valueAt due entries) entries.length before.length := by
  have hplace : entries[before.length]? = some e := by simp [hentries]
  refine ⟨by simp [hentries], fun j hj => ?_, fun j hj => ?_⟩
  · rw [valueAt_eq hplace, valueAt_eq (List.getElem?_eq_getElem hj)]
    exact hmin _ (List.getElem_mem hj)
  · have hd : entries[j]? = some before[j] := by
      rw [hentries, List.getElem?_append_left hj, List.getElem?_eq_getElem hj]
    rw [valueAt_eq hplace, valueAt_eq hd]
    exact lt_of_le_of_ne (hmin _ (List.mem_of_getElem? hd)) (hfirst _ (List.getElem_mem hj)).symm

end Values

namespace ScoredSet

/-- Going through further places keeps the first that has the least value. -/
lemma leastFrom_eq {score : ℕ → Except IndexError ℤ} {value : ℕ → ℤ} (m : ℕ) {p best : ℕ}
    (hscore : ∀ i < p + m, score i = .ok (value i)) (h : FirstLeast value p best) :
    ∃ k, leastFrom score best (value best) (List.range' p m) = .ok k ∧ FirstLeast value (p + m) k := by
  induction m generalizing p best with
  | zero => exact ⟨best, rfl, h⟩
  | succ m ih =>
      have hnext : ∀ i < p + 1 + m, score i = .ok (value i) := fun i hi => hscore i (by omega)
      have hvalue := hscore p (by omega)
      rw [show p + (m + 1) = p + 1 + m by omega, List.range'_succ, leastFrom, hvalue]
      show ∃ k, (if value p < value best then leastFrom score p (value p) (List.range' (p + 1) m)
        else leastFrom score best (value best) (List.range' (p + 1) m)) = .ok k ∧ _
      split_ifs with hless
      · refine ih hnext ⟨by omega, fun j hj => ?_, fun j hj => hless.trans_le (h.least j hj)⟩
        rcases Nat.lt_succ_iff_lt_or_eq.1 hj with hj | rfl
        · exact (hless.trans_le (h.least j hj)).le
        · exact le_rfl
      · refine ih hnext ⟨Nat.lt_succ_of_lt h.lt, fun j hj => ?_, h.first⟩
        rcases Nat.lt_succ_iff_lt_or_eq.1 hj with hj | rfl
        · exact h.least j hj
        · exact not_lt.1 hless

/-! ## The refinement -/

/-- The lists of a set are the two columns of the entries of a queue. -/
structure Represents {α : Type} (set : ScoredSet α) (q : Queue α) : Prop where
  schedule : set.schedule = q.schedule
  members : set.members = q.entries.map Entry.item
  scores : set.scores = q.entries.map Entry.scores

/-- The members of a set, each with the scores at its place. -/
def entries {α : Type} (set : ScoredSet α) : List (Entry α) :=
  List.zipWith Entry.mk set.members set.scores

/-- The queue of these entries. -/
def queue {α : Type} (set : ScoredSet α) : Queue α := ⟨set.schedule, set.entries⟩

section Columns

variable {α β : Type} {before after : List (Entry α)} {e : Entry α}

lemma eraseIdx_column (f : Entry α → β) :
    ((before ++ e :: after).map f).eraseIdx before.length = (before ++ after).map f := by
  rw [List.eraseIdx_map, List.eraseIdx_append_of_length_le le_rfl, Nat.sub_self,
    List.eraseIdx_cons_zero]

lemma delete_column (f : Entry α → β) :
    Index.delete ((before ++ e :: after).map f) before.length = .ok ((before ++ after).map f) := by
  rw [Index.delete_natCast (by simp), eraseIdx_column]

lemma pop_column (f : Entry α → β) :
    Index.pop ((before ++ e :: after).map f) before.length =
      .ok (f e, (before ++ after).map f) := by
  rw [Index.pop_natCast (by simp), eraseIdx_column]
  simp

end Columns

namespace Represents

section Any

variable {α : Type} {set : ScoredSet α} {q : Queue α}

lemma empty (schedule : Schedule) :
    Represents ({ schedule } : ScoredSet α) ({ schedule } : Queue α) :=
  ⟨rfl, rfl, rfl⟩

lemma length_eq (h : set.Represents q) : set.scores.length = set.members.length := by
  rw [h.scores, h.members, List.length_map, List.length_map]

lemma entries_eq (h : set.Represents q) : set.entries = q.entries := by
  rw [entries, h.members, h.scores, List.zipWith_map, List.zipWith_self]
  exact List.map_id' q.entries

lemma queue_eq (h : set.Represents q) : set.queue = q := by
  rw [queue, h.schedule, h.entries_eq]

lemma add [HasClause α] (h : set.Represents q) (x : α) : (set.add x).Represents (q.insert x) := by
  obtain ⟨schedule, members, scores⟩ := set
  obtain ⟨rfl, rfl, rfl⟩ := h
  exact ⟨rfl, by simp [ScoredSet.add, ClauseSet.add, Queue.insert],
    by simp [ScoredSet.add, Queue.insert]⟩

lemma addAll [HasClause α] (h : set.Represents q) (xs : List α) :
    (set.addAll xs).Represents (q.insertAll xs) := by
  induction xs generalizing set q with
  | nil => exact h
  | cons x xs ih => exact ih (h.add x)

lemma scoreAt_eq (h : set.Represents q) {due place : ℕ} {e : Entry α}
    (he : q.entries[place]? = some e) (hdue : due < e.scores.length) :
    set.scoreAt due place = .ok (Queue.scoreAt due e) := by
  obtain ⟨hplace, rfl⟩ := List.getElem?_eq_some_iff.1 he
  rw [ScoredSet.scoreAt, h.scores, Index.get_natCast (by simpa using hplace), List.getElem_map]
  show Index.get q.entries[place].scores due = _
  rw [Index.get_natCast hdue, Queue.scoreAt, List.getD_eq_getElem _ _ hdue]

/-- **The place of least score is that of the first entry of least score.** -/
lemma leastFrom_eq (h : set.Represents q) {due : ℕ} (hdue : ∀ e ∈ q.entries, due < e.scores.length)
    {before after : List (Entry α)} {e : Entry α} (hentries : q.entries = before ++ e :: after)
    (hmin : ∀ d ∈ q.entries, Queue.scoreAt due e ≤ Queue.scoreAt due d)
    (hfirst : ∀ d ∈ before, Queue.scoreAt due d ≠ Queue.scoreAt due e) :
    ∃ value rest, List.range set.members.length = 0 :: rest ∧ set.scoreAt due 0 = .ok value ∧
      ScoredSet.leastFrom (set.scoreAt due) 0 value rest = .ok before.length := by
  have hselected := firstLeast_of_split hentries hmin hfirst
  have hscore : ∀ i < q.entries.length, set.scoreAt due i = .ok (valueAt due q.entries i) := by
    intro i hi
    have hd := List.getElem?_eq_getElem hi
    rw [h.scoreAt_eq hd (hdue _ (List.getElem_mem hi)), valueAt_eq hd]
  obtain ⟨n, hn⟩ := Nat.exists_eq_add_of_lt hselected.lt.pos
  rw [Nat.zero_add, Nat.add_comm] at hn
  obtain ⟨k, hk, hleast⟩ :=
    ScoredSet.leastFrom_eq n (fun i hi => hscore i (hn ▸ hi)) (firstLeast_one (valueAt due q.entries))
  rw [← hn] at hleast
  obtain rfl : k = before.length := hleast.unique hselected
  refine ⟨_, List.range' 1 n, ?_, hscore 0 hselected.lt.pos, hk⟩
  rw [h.members, List.length_map, hn, Nat.add_comm, List.range_eq_range', List.range'_succ]

/-- **The same member is selected.** -/
theorem extractBest (h : set.Represents q) (hturn : q.schedule.InTurn)
    (hfull : ∀ e ∈ q.entries, e.scores.length = q.schedule.slots.length) :
    ∃ rest, set.extractBest = .ok (q.extractBest.map Prod.fst, rest) ∧
      rest.Represents ((q.extractBest.map Prod.snd).getD q) := by
  cases hbest : q.extractBest with
  | none =>
      have hempty : q.entries = [] := List.isEmpty_iff.1 (Queue.extractBest_eq_none_iff.1 hbest)
      refine ⟨set, ?_, h⟩
      rw [ScoredSet.extractBest, h.members, hempty]
      rfl
  | some taken =>
      obtain ⟨x, q'⟩ := taken
      obtain ⟨before, e, after, hentries, rfl, rfl, hmin, hfirst⟩ := Queue.extractBest_least hbest
      have hdue : ∀ e ∈ q.entries, q.schedule.next.1 < e.scores.length := by
        intro e he
        rw [hfull e he, q.schedule.next_fst]
        exact hturn.current
      obtain ⟨value, places, hrange, hvalue, hplace⟩ := h.leastFrom_eq hdue hentries hmin hfirst
      refine ⟨⟨q.schedule.next.2, (before ++ after).map Entry.item,
        (before ++ after).map Entry.scores⟩, ?_, ⟨rfl, rfl, rfl⟩⟩
      rw [ScoredSet.extractBest, hrange]
      simp only [h.schedule, hvalue, hplace, h.members, h.scores, hentries, delete_column, pop_column,
        bind, Except.bind, pure, Except.pure, Option.map_some]

theorem extractFirst (h : set.Represents q) :
    ∃ rest, set.extractFirst = .ok (q.items.head?, rest) ∧
      rest.Represents { q with entries := q.entries.tail } := by
  cases hentries : q.entries with
  | nil =>
      refine ⟨set, ?_, h.schedule, ?_, ?_⟩
      · rw [ScoredSet.extractFirst, h.members, Queue.items, hentries]
        rfl
      · rw [h.members, hentries]
        rfl
      · rw [h.scores, hentries]
        rfl
  | cons e rest =>
      refine ⟨⟨q.schedule, rest.map Entry.item, rest.map Entry.scores⟩, ?_, ⟨rfl, rfl, rfl⟩⟩
      have hscores := @delete_column _ _ [] rest e Entry.scores
      have hmembers := @pop_column _ _ [] rest e Entry.item
      simp only [List.nil_append, List.length_nil, Nat.cast_zero] at hscores hmembers
      rw [ScoredSet.extractFirst, h.members, h.scores, hentries, if_neg (by simp), hscores, hmembers]
      simp [bind, Except.bind, pure, Except.pure, h.schedule, Queue.items, hentries]

end Any

section Labels

variable {set : ScoredSet Labelled} {q : Queue Labelled}

/-- **The member of a label is at the place of its entry.** -/
theorem extract_of_ok (h : set.Represents q) {c : Labelled} {rest : List (Entry Labelled)}
    (hrest : extractBy Entry.item c q.entries = .ok rest) :
    ∃ set', set.extract c = .ok set' ∧ set'.Represents { q with entries := rest } := by
  rcases extractBy_cases Entry.item c q.entries with
    ⟨herror, -⟩ | ⟨before, e, after, hentries, hlabel, hbefore, hok⟩
  · rw [herror] at hrest
    cases hrest
  · obtain rfl : before ++ after = rest := Except.ok.inj (hok.symm.trans hrest)
    refine ⟨⟨q.schedule, (before ++ after).map Entry.item, (before ++ after).map Entry.scores⟩, ?_,
      ⟨rfl, rfl, rfl⟩⟩
    have hplace : (q.entries.map Entry.item).findIdx? (fun x => x.label == c.label) =
        some before.length := by
      rw [hentries, List.map_append, List.map_cons, List.findIdx?_append,
        List.findIdx?_eq_none_iff.2 (by simpa using hbefore)]
      simp [List.findIdx?_cons, hlabel]
    rw [ScoredSet.extract, h.members, hplace]
    simp only [h.schedule, h.scores, hentries, delete_column, Except.mapError, bind, Except.bind, pure,
      Except.pure]

lemma extract_of_error (h : set.Represents q) {c : Labelled} {reason : NotAMember}
    (herror : extractBy Entry.item c q.entries = .error reason) :
    set.extract c = .error (.notAMember reason) := by
  rcases extractBy_cases Entry.item c q.entries with ⟨hreason, hall⟩ | ⟨_, _, _, -, -, -, hok⟩
  · obtain rfl := Except.error.inj (hreason.symm.trans herror)
    have hnone : (q.entries.map Entry.item).findIdx? (fun x => x.label == c.label) = none :=
      List.findIdx?_eq_none_iff.2 (by simpa using hall)
    rw [ScoredSet.extract, h.members, hnone]
  · rw [hok] at herror
    cases herror

/-- A loop that takes out members one by one goes the same way. -/
lemma extractEach_of_ok (h : set.Represents q) {cs : List Labelled} {rest : List (Entry Labelled)}
    (hrest : extractEach (extractBy Entry.item) cs q.entries = .ok rest) :
    ∃ set', extractEach ScoredSet.extract cs set = .ok set' ∧
      set'.Represents { q with entries := rest } := by
  induction cs generalizing set q with
  | nil =>
      obtain rfl : q.entries = rest := Except.ok.inj hrest
      exact ⟨set, rfl, h⟩
  | cons c cs ih =>
      obtain ⟨middle, hmiddle, hrest⟩ := bind_eq_ok hrest
      obtain ⟨set₁, hset₁, h₁⟩ := h.extract_of_ok hmiddle
      obtain ⟨set₂, hset₂, h₂⟩ := ih h₁ hrest
      exact ⟨set₂, by rw [extractEach, hset₁]; exact hset₂, h₂⟩

/-- **What a clause subsumes goes from both lists**, and is counted. -/
theorem removeSubsumed (h : set.Represents q) (htell : LabelsTell Entry.item q.entries) (c : Clause) :
    ∃ rest, set.removeSubsumed c =
        .ok (q.entries.countP fun e => subsumes c e.item.clause, rest) ∧
      rest.Represents { q with entries := q.entries.filter fun e => !subsumes c e.item.clause } := by
  obtain ⟨rest, hloop, hrest⟩ := h.extractEach_of_ok (extractEach_subsumed c htell)
  have hcount : ((q.entries.map Entry.item).filter fun x => subsumes c x.clause).length =
      q.entries.countP fun e => subsumes c e.item.clause := by
    rw [← List.countP_eq_length_filter, List.countP_map]
    rfl
  refine ⟨rest, ?_, hrest⟩
  rw [ScoredSet.removeSubsumed, GivenClause.removeSubsumed, h.members, hcount, hloop]
  rfl

variable {clauseOf : ℕ → Clause}

/-- **A set answers as the queue that it represents**, and goes on to represent it. -/
theorem perform (h : set.Represents q) (horderly : q.Orderly clauseOf) (request : Request) :
    (set.perform clauseOf request).1 = (q.perform clauseOf request).1 ∧
      (set.perform clauseOf request).2.Represents (q.perform clauseOf request).2 := by
  cases request with
  | insert label => exact ⟨rfl, h.add _⟩
  | insertAll labels => exact ⟨rfl, h.addAll _⟩
  | extractBest =>
      obtain ⟨rest, hset, hrest⟩ := h.extractBest horderly.inTurn horderly.full
      rw [ScoredSet.perform, Queue.perform, hset]
      cases hbest : q.extractBest with
      | none | some taken =>
          rw [hbest] at hrest
          exact ⟨rfl, hrest⟩
  | extractFirst =>
      obtain ⟨rest, hset, hrest⟩ := h.extractFirst
      rw [ScoredSet.perform, Queue.perform, hset]
      exact ⟨rfl, hrest⟩
  | extract label =>
      rw [ScoredSet.perform, Queue.perform]
      cases hextract : extractBy Entry.item (member clauseOf label) q.entries with
      | ok others =>
          obtain ⟨rest, hset, hrest⟩ := h.extract_of_ok hextract
          rw [hset]
          exact ⟨rfl, hrest⟩
      | error reason =>
          rw [h.extract_of_error hextract]
          exact ⟨rfl, h⟩
  | removeSubsumed c =>
      obtain ⟨rest, hset, hrest⟩ := h.removeSubsumed horderly.labelsTell c
      rw [ScoredSet.perform, Queue.perform, hset]
      exact ⟨rfl, hrest⟩

/-- **The two lists stay in step** over any number of requests. -/
theorem answerAll (h : set.Represents q) (horderly : q.Orderly clauseOf) (requests : List Request) :
    (ScoredSet.answerAll (ScoredSet.perform clauseOf) set requests).1 =
        (ScoredSet.answerAll (Queue.perform clauseOf) q requests).1 ∧
      (ScoredSet.answerAll (ScoredSet.perform clauseOf) set requests).2.Represents
        (ScoredSet.answerAll (Queue.perform clauseOf) q requests).2 := by
  induction requests generalizing set q with
  | nil => exact ⟨rfl, h⟩
  | cons request requests ih =>
      obtain ⟨hreply, hset⟩ := h.perform horderly request
      obtain ⟨hreplies, hlast⟩ := ih hset (horderly.perform request)
      exact ⟨congrArg₂ List.cons hreply hreplies, hlast⟩

lemma serve (clauseOf : ℕ → Clause) {schedule : Schedule} (hturn : schedule.InTurn)
    (requests : List Request) :
    (ScoredSet.serve clauseOf schedule requests).1 =
        (ScoredSet.answerAll (Queue.perform clauseOf) { schedule } requests).1 ∧
      (ScoredSet.serve clauseOf schedule requests).2.Represents
        (ScoredSet.answerAll (Queue.perform clauseOf) { schedule } requests).2 :=
  (Represents.empty schedule).answerAll (Queue.orderly_empty hturn) requests

end Labels

end Represents

end ScoredSet

end GivenClause
