import Firenook.Runs
import Firenook.Text

/-!
# Account listings

A client follows the page tokens of a listing while accounts are created and deleted.  The
token is the last id of the page, whether or not that account still exists.
-/

namespace Firenook.Auth

open Std List Runs

variable {Fields : Type}

def after (startToken : Option Text) (localId : Text) : Bool :=
  startToken.all fun token => Text.cmp token localId = .lt

section

variable (users : ExtTreeMap Text Fields Text.cmp)

/-- Records stand in the map under their `localId`, which is the order of the answer. -/
def queryUsers (startToken : Option Text) : List (Text × Fields) :=
  users.toList.filter fun user => after startToken user.1

def batchGet (maxResults : Option Int) (nextPageToken : Option Text) :
    List (Text × Fields) × Option Text :=
  let maxResults := min ((maxResults.filter (· ≠ 0)).getD 20) 1000
  let users := queryUsers users nextPageToken
  if 0 ≤ maxResults ∧ maxResults ≤ users.length then
    let users := users.take maxResults.toNat
    (users, users.getLast?.map Prod.fst)
  else (users, none)

end

structure Listing (Fields : Type) where
  users : ExtTreeMap Text Fields Text.cmp
  token : Option Text := none
  finished : Bool := false
  returned : List Text := []

inductive ListingStep (Fields : Type)
  | create (localId : Text) (fields : Fields)
  | delete (localId : Text)
  /-- The next page, unless the last one had no token. -/
  | request (maxResults : Option Int)

def ListingStep.isRequest : ListingStep Fields → Bool
  | .request _ => true
  | _ => false

def ListingStep.isCreate : ListingStep Fields → Bool
  | .create .. => true
  | _ => false

namespace Listing

def step (listing : Listing Fields) : ListingStep Fields → Listing Fields
  | .create localId fields => { listing with users := listing.users.insert localId fields }
  | .delete localId => { listing with users := listing.users.erase localId }
  | .request maxResults =>
    if listing.finished then listing else
    let (page, next) := batchGet listing.users maxResults listing.token
    { listing with
      token := next
      finished := next.isNone
      returned := listing.returned ++ page.map Prod.fst }

def ahead (listing : Listing Fields) (localId : Text) : Bool :=
  !listing.finished && after listing.token localId

/-- The ids that later pages have, if no account comes or goes. -/
def rest (listing : Listing Fields) : List Text :=
  listing.users.keys.filter listing.ahead

end Listing

/-! ## One page -/

variable {users : ExtTreeMap Text Fields Text.cmp} {token : Option Text} {localId : Text}

theorem ids_queryUsers :
    (queryUsers users token).map Prod.fst = users.keys.filter (after token) := by
  rw [queryUsers, ← ExtTreeMap.map_fst_toList_eq_keys, filter_map]
  rfl

theorem batchGet_cases (users : ExtTreeMap Text Fields Text.cmp) (maxResults : Option Int)
    (token : Option Text) :
    batchGet users maxResults token = (queryUsers users token, none) ∨
    ∃ front last back, queryUsers users token = front ++ last :: back ∧
      batchGet users maxResults token = (front ++ [last], some last.1) := by
  have positive : min ((maxResults.filter (· ≠ 0)).getD 20) 1000 ≠ 0 := by
    cases given : maxResults.filter (· ≠ 0) with
    | none => decide
    | some size =>
      have := (Option.filter_eq_some_iff.mp given).2
      simp at this ⊢
      omega
  rw [batchGet]
  generalize min ((maxResults.filter (· ≠ 0)).getD 20) 1000 = size at positive
  dsimp only
  split_ifs with cut
  · have split := take_append_drop size.toNat (queryUsers users token)
    rcases eq_nil_or_concat' ((queryUsers users token).take size.toNat) with
      none | ⟨front, last, taken⟩
    · have := congrArg length none
      rw [length_take, length_nil] at this
      omega
    · rw [taken, append_assoc] at split
      exact .inr ⟨front, last, _, split.symm, by simp [taken]⟩
  · exact .inl rfl

theorem after_trans {middle : Text} (first : after token middle)
    (second : after (some middle) localId) : after token localId := by
  cases token with
  | none => rfl
  | some token =>
    exact decide_eq_true (TransCmp.lt_trans (of_decide_eq_true first) (of_decide_eq_true second))

theorem queryUsers_behind {front back : List (Text × Fields)} {last : Text × Fields}
    (listed : queryUsers users token = front ++ last :: back) :
    (queryUsers users (some last.1)).map Prod.fst = back.map Prod.fst := by
  have ids := @ids_queryUsers _ users token
  rw [listed, map_append, map_cons] at ids
  have lastAfter : last.1 ∈ users.keys.filter (after token) := by simp [← ids]
  have again : users.keys.filter (after (some last.1)) =
      (users.keys.filter (after token)).filter (after (some last.1)) := by
    rw [filter_filter]
    refine filter_congr fun localId _ => ?_
    have := @after_trans token localId _ (mem_filter.mp lastAfter).2
    grind
  have ordered := (ExtTreeMap.ordered_keys (t := users)).filter (after token)
  rw [← ids, pairwise_append, pairwise_cons] at ordered
  have early : (front.map Prod.fst).filter (after (some last.1)) = [] :=
    filter_eq_nil_iff.mpr fun localId member isAfter =>
      OrientedCmp.not_lt_of_lt (ordered.2.2 _ member _ mem_cons_self) (of_decide_eq_true isAfter)
  have late : (back.map Prod.fst).filter (after (some last.1)) = back.map Prod.fst :=
    filter_eq_self.mpr fun localId member => decide_eq_true (ordered.2.1.1 localId member)
  rw [ids_queryUsers, again, ← ids, filter_append, filter_cons, early, late]
  simp [after, ReflCmp.compare_self]

namespace Listing

variable {listing : Listing Fields}

theorem rest_eq : listing.rest =
    if listing.finished then [] else (queryUsers listing.users listing.token).map Prod.fst := by
  rw [rest, ids_queryUsers]
  split_ifs with finished
  · exact filter_eq_nil_iff.mpr (by simp [ahead, finished])
  · exact filter_congr (by simp [ahead, finished])

theorem request_rest (maxResults : Option Int) :
    let next := listing.step (.request maxResults)
    next.returned ++ next.rest = listing.returned ++ listing.rest ∧
      (next.finished = true ∨ next.rest.length < listing.rest.length) := by
  cases finished : listing.finished with
  | true => simp [step, finished]
  | false =>
    rcases batchGet_cases listing.users maxResults listing.token with
      all | ⟨front, last, back, listed, cut⟩
    · simp [step, rest_eq, finished, all]
    · simp [step, rest_eq, finished, cut, queryUsers_behind listed, listed]
      omega

theorem nodup_rest : listing.rest.Nodup := ExtTreeMap.nodup_keys.filter _

theorem mem_rest : localId ∈ listing.rest ↔ localId ∈ listing.users ∧ listing.ahead localId := by
  rw [rest, mem_filter, ExtTreeMap.mem_keys]

theorem counted_run {events : List (ListingStep Fields)}
    (present : AllSteps step (fun listing _ => localId ∈ listing.users) listing events)
    (counted : listing.returned.count localId + (listing.ahead localId).toNat = 1) :
    let later := run step listing events
    later.returned.count localId + (later.ahead localId).toNat = 1 := by
  refine invariant_run (fun listing => listing.returned.count localId +
    (listing.ahead localId).toNat = 1) ?_ counted present
  intro listing event present counted
  cases event with
  | create | delete => exact counted
  | request maxResults =>
    have still : localId ∈ (listing.step (.request maxResults)).users := by
      rw [step]
      split_ifs <;> exact present
    have moved := congrArg (count localId) (listing.request_rest maxResults).1
    simp only [count_append, nodup_rest.count, mem_rest, present, still, true_and] at moved
    grind

theorem finished_run {events : List (ListingStep Fields)}
    (quiet : ∀ event ∈ events, event.isCreate = false)
    (enough : listing.rest.length < events.countP ListingStep.isRequest) :
    (run step listing events).finished = true := by
  induction events generalizing listing with
  | nil => cases enough
  | cons event events ih =>
    rw [forall_mem_cons] at quiet
    cases event with
    | create => cases quiet.1
    | delete localId =>
      refine ih quiet.2 (Nat.lt_of_le_of_lt ?_ enough)
      refine (nodup_rest.subperm fun other member => ?_).length_le
      rw [mem_rest] at member ⊢
      exact member.imp_left ExtTreeMap.mem_of_mem_erase
    | request maxResults =>
      rcases (listing.request_rest maxResults).2 with ended | fewer
      · exact invariant_run_unconditional (fun later : Listing Fields => later.finished = true)
          (fun _ event ended => by cases event <;> simp [step, ended]) ended events
      · refine ih quiet.2 (fewer.trans_le ?_)
        simpa [ListingStep.isRequest, countP_cons] using enough

end Listing

/-- Following the tokens returns every account that stays exactly once, and ends after at most
one page more than there are accounts when creations stop. -/
theorem listing_returns_each_once (users : ExtTreeMap Text Fields Text.cmp)
    (events : List (ListingStep Fields)) :
    let listing := run Listing.step { users } events
    (∀ localId, AllSteps Listing.step (fun listing _ => localId ∈ listing.users) { users } events →
      listing.finished = true → listing.returned.count localId = 1) ∧
    ∀ later, (∀ event ∈ later, ListingStep.isCreate event = false) →
      listing.users.size < later.countP ListingStep.isRequest →
      (run Listing.step listing later).finished = true := by
  refine ⟨fun localId present finished => ?_, fun later quiet enough => ?_⟩
  · simpa [Listing.ahead, finished] using Listing.counted_run present rfl
  · refine Listing.finished_run quiet (Nat.lt_of_le_of_lt ?_ enough)
    rw [← ExtTreeMap.length_keys]
    exact length_filter_le ..

namespace Sample

def accounts : ExtTreeMap Text Unit Text.cmp :=
  (({} : ExtTreeMap Text Unit Text.cmp).insert "a".toList ()).insert "b".toList ()

def pages : List (ListingStep Unit) :=
  [.request (some 1), .create "c".toList (), .request (some 1), .delete "a".toList,
    .request (some 1), .request (some 1)]

end Sample

open Sample

theorem listing_returns_each_once_sample :
    (run Listing.step { users := accounts } pages).returned.count "b".toList = 1 ∧
      (run Listing.step { users := accounts }
        (.replicate 3 (.request (some 1)))).finished = true := by
  constructor
  · refine (listing_returns_each_once accounts pages).1 "b".toList ?_ (by decide +kernel)
    refine ⟨?_, ?_, ?_, ?_, ?_, ?_, trivial⟩ <;> decide +kernel
  · exact (listing_returns_each_once accounts []).2 _ (by decide) (by decide +kernel)

end Firenook.Auth
