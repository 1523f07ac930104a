import CodeAtlas.Store.Delivery
import Mathlib.Algebra.Ring.Int.Defs
import Mathlib.Data.List.Forall2

/-!
# What a delivery does on its line

A request is made again only after a failure that may pass, and not more often than its policy allows. A call that delivers several
batches takes them one after the other and stops at the first that fails. What it did is told by a log: the batches it came to, and for
each of them the outcomes of its attempts.
-/

namespace CodeAtlas

variable {request outcome : Type}

namespace Attempt

/-- Whether an attempt has been successful. -/
def isSuccess {α : Type} : Attempt α → Bool
  | success _ => true
  | passing _ => false
  | lasting _ => false

/-- What reading its answer makes of an attempt: an answer that cannot be read is a failure that stays. -/
def read {α β : Type} (f : α → Except StoreFailure β) : Attempt α → Attempt β
  | success a =>
    match f a with
    | .ok b => success b
    | .error e => lasting e
  | passing e => passing e
  | lasting e => lasting e

end Attempt

namespace Line

/-- A line has gone on by some attempts: each made a request, and its outcome is what came next. A line with nothing more to come ends
every attempt like `idle`. -/
structure Advances (idle : outcome) (line after : Line request outcome) (attempts : List (request × outcome)) : Prop where
  sent : after.sent = line.sent ++ attempts.map (·.1)
  outcomes : attempts.map (·.2) = (List.range attempts.length).map fun i => line.coming.getD i idle
  coming : after.coming = line.coming.drop attempts.length

namespace Advances

variable {idle : outcome} {line mid after : Line request outcome} {attempts more : List (request × outcome)}

/-- Without an attempt a line does not go on. -/
theorem refl (idle : outcome) (line : Line request outcome) : Advances idle line line [] := by
  constructor <;> simp

/-- A line that has gone on goes on from there. -/
theorem trans (h : Advances idle line mid attempts) (h' : Advances idle mid after more) :
    Advances idle line after (attempts ++ more) := by
  constructor
  · rw [h'.sent, h.sent, List.map_append, List.append_assoc]
  · have hmore : ∀ i, mid.coming.getD i idle = line.coming.getD (attempts.length + i) idle := by
      intro i
      simp [h.coming, List.getD_eq_getElem?_getD]
    rw [List.map_append, h.outcomes, h'.outcomes, List.length_append, List.range_add, List.map_append, List.map_map]
    simp only [hmore, Function.comp_def]
  · rw [h'.coming, h.coming, List.drop_drop, List.length_append]

/-- An attempt takes a line one outcome further. -/
theorem attempt (idle : outcome) (r : request) (line : Line request outcome) :
    Advances idle line (line.attempt idle r).2 [(r, (line.attempt idle r).1)] := by
  constructor
  · rfl
  · simp [Line.attempt, List.getD_eq_getElem?_getD, List.headD_eq_head?_getD, List.head?_eq_getElem?]
  · rfl

/-- A wait leaves the outcomes to come as they are. -/
theorem pause (h : Advances idle line after attempts) (seconds : Binary64) : Advances idle line (after.pause seconds) attempts :=
  ⟨h.sent, h.outcomes, h.coming⟩

end Advances

end Line

/-- The outcomes of the attempts to make one request. They are not more than the limit, and all but the last are failures that may pass.
The last one settles the request; a failure that may pass does so where the limit is reached. -/
structure Attempted {α : Type} (limit : Nat) (judge : outcome → Attempt α) (outcomes : List outcome) (result : Except StoreFailure α) :
    Prop where
  limited : outcomes.length ≤ limit
  again : ∀ o ∈ outcomes.dropLast, ∃ f, judge o = .passing f
  ends : ∃ o, outcomes.getLast? = some o ∧
    match result with
    | .ok a => judge o = .success a
    | .error f => judge o = .lasting f ∨ judge o = .passing f ∧ outcomes.length = limit

namespace Attempted

variable {α : Type} {limit : Nat} {judge : outcome → Attempt α} {outcomes : List outcome} {result : Except StoreFailure α} {o : outcome}

/-- A success settles a request at the first attempt. -/
theorem of_success {a : α} (h : judge o = .success a) : Attempted (limit + 1) judge [o] (.ok a) :=
  ⟨Nat.le_add_left 1 limit, by simp, o, rfl, h⟩

/-- So does a failure that stays. -/
theorem of_lasting {f : StoreFailure} (h : judge o = .lasting f) : Attempted (limit + 1) judge [o] (.error f) :=
  ⟨Nat.le_add_left 1 limit, by simp, o, rfl, Or.inl h⟩

/-- A failure that may pass settles it where no more attempts are allowed. -/
theorem of_passing {f : StoreFailure} (h : judge o = .passing f) : Attempted 1 judge [o] (.error f) :=
  ⟨Nat.le_refl 1, by simp, o, rfl, Or.inr ⟨h, rfl⟩⟩

/-- One more attempt goes before the others if its failure may pass. -/
theorem cons {f : StoreFailure} (h : judge o = .passing f) (hos : Attempted limit judge outcomes result) :
    Attempted (limit + 1) judge (o :: outcomes) result := by
  obtain ⟨last, hlast, hends⟩ := hos.ends
  have hne : outcomes ≠ [] := by
    rintro rfl
    nomatch hlast
  refine ⟨Nat.succ_le_succ hos.limited, ?_, last, ?_, ?_⟩
  · intro x hx
    rw [List.dropLast_cons_of_ne_nil hne] at hx
    rcases List.mem_cons.1 hx with rfl | hx
    · exact ⟨f, h⟩
    · exact hos.again x hx
  · rw [List.getLast?_cons, hlast, Option.getD_some]
  · cases result with
    | ok a => exact hends
    | error e => simpa using hends

end Attempted

namespace Line

/-- A delivery makes its request until an outcome settles it. -/
theorem deliver_spec {α : Type} (policy : RetryPolicy) (idle : outcome) (judge : outcome → Attempt α) (r : request) (left made : Nat)
    (line : Line request outcome) :
    ∃ outcomes, Attempted (left + 1) judge outcomes (line.deliver policy idle judge r left made).1 ∧
      Advances idle line (line.deliver policy idle judge r left made).2 (outcomes.map (r, ·)) := by
  have hstep := Advances.attempt idle r line
  induction left generalizing made line with
  | zero =>
    refine ⟨[(line.attempt idle r).1], ?_⟩
    unfold deliver
    dsimp only
    split
    · rename_i h
      exact ⟨Attempted.of_success h, hstep⟩
    · rename_i h
      exact ⟨Attempted.of_passing h, hstep⟩
    · rename_i h
      exact ⟨Attempted.of_lasting h, hstep⟩
  | succ left ih =>
    unfold deliver
    dsimp only
    split
    · rename_i h
      exact ⟨[_], Attempted.of_success h, hstep⟩
    · rename_i h
      exact ⟨[_], Attempted.of_lasting h, hstep⟩
    · rename_i h
      obtain ⟨outcomes, hattempted, hadvances⟩ := ih (made + 1) _ (Advances.attempt idle r _)
      exact ⟨_, hattempted.cons h, (hstep.pause _).trans hadvances⟩

/-- Reading the answer of a delivery is a matter of what its outcomes mean. -/
theorem deliver_read {α β : Type} (policy : RetryPolicy) (idle : outcome) (judge : outcome → Attempt α) (f : α → Except StoreFailure β)
    (r : request) (left made : Nat) (line : Line request outcome) :
    line.deliver policy idle (fun o => (judge o).read f) r left made =
      ((line.deliver policy idle judge r left made).1.bind f, (line.deliver policy idle judge r left made).2) := by
  induction left generalizing made line with
  | zero =>
    unfold deliver
    dsimp only
    cases judge (line.attempt idle r).1 with
    | success a => cases h : f a <;> simp [Attempt.read, h, Except.bind]
    | passing e => rfl
    | lasting e => rfl
  | succ left ih =>
    unfold deliver
    dsimp only
    cases judge (line.attempt idle r).1 with
    | success a => cases h : f a <;> simp [Attempt.read, h, Except.bind]
    | passing e => exact ih _ _
    | lasting e => rfl

end Line

namespace Delivery

/-- What comes after a call runs on the line that the call leaves, unless the call failed. -/
theorem bind_apply {α β : Type} (call : Delivery request outcome α) (next : α → Delivery request outcome β) (line : Line request outcome) :
    (call >>= next) line =
      match call line with
      | (.ok a, line) => next a line
      | (.error f, line) => (.error f, line) := by
  show (ExceptT.bind call next : Delivery request outcome β) line = _
  simp only [ExceptT.bind, ExceptT.mk, bind, StateT.bind]
  rcases call line with ⟨_ | a, line⟩ <;> rfl

/-- Reading an answer settles what the outcomes of its request mean. -/
theorem ask_settled {α β : Type} (policy : RetryPolicy) (idle : outcome) (judge : outcome → Attempt α) (r : request)
    (f : α → Except StoreFailure β) :
    (ask policy idle judge r >>= fun a => settled (f a)) = ask policy idle (fun o => (judge o).read f) r := by
  funext line
  rw [bind_apply, ask, ask, Line.deliver_read]
  rcases line.deliver policy idle judge r (policy.attempts - 1) 0 with ⟨_ | a, after⟩ <;> rfl

/-! ## Calls that deliver several batches -/

/-- A batch of rows: the request that carries it, and what an outcome of the request means, with the number of rows that it reports. A
request may be one that cannot be sent at all. -/
structure Batch (request outcome : Type) where
  rows : List Json
  request : request
  verdict : outcome → Attempt Int
  unsendable : Option StoreFailure := none

/-- The batches that a call came to, each with the outcomes of its attempts. -/
abbrev Log (request outcome : Type) := List (Batch request outcome × List outcome)

namespace Batch

/-- The last attempt of a batch was successful and reported a number of rows. -/
def Reports (b : Batch request outcome) (outcomes : List outcome) (count : Int) : Prop :=
  ∃ o, outcomes.getLast? = some o ∧ b.verdict o = .success count

/-- A batch has failed: it could not be sent, its last failure was one that stays, or it has been attempted as often as is allowed. -/
def Fails (limit : Nat) (b : Batch request outcome) (outcomes : List outcome) (f : StoreFailure) : Prop :=
  b.unsendable = some f ∧ outcomes = [] ∨
    ∃ o, outcomes.getLast? = some o ∧ (b.verdict o = .lasting f ∨ b.verdict o = .passing f ∧ outcomes.length = limit)

end Batch

namespace Log

/-- The attempts of all batches in their order. -/
def attempts (log : Log request outcome) : List (request × outcome) := log.flatMap fun p => p.2.map (p.1.request, ·)

/-- The rows of every request that was successful. -/
def delivered (log : Log request outcome) : List Json :=
  log.flatMap fun p => (p.2.filter fun o => (p.1.verdict o).isSuccess).flatMap fun _ => p.1.rows

end Log

/-- What a call over a line did to deliver the batches of a plan. It took them in their order, each with as many attempts as were needed
and allowed. It returns the sum of the reported numbers if every row was delivered once, and otherwise fails with the first batch that
failed. -/
structure Delivered (limit : Nat) (idle : outcome) (plan : List (Batch request outcome)) (line : Line request outcome)
    (result : Except StoreFailure Int) (after : Line request outcome) (log : Log request outcome) : Prop where
  order : log.map (·.1) <+: plan
  advances : line.Advances idle after log.attempts
  limited : ∀ p ∈ log, p.2.length ≤ limit
  again : ∀ p ∈ log, ∀ o ∈ p.2.dropLast, ∃ f, p.1.verdict o = .passing f
  ok : ∀ n, result = .ok n → log.map (·.1) = plan ∧ log.delivered = plan.flatMap (·.rows) ∧
    ∃ counts, List.Forall₂ (fun p c => p.1.Reports p.2 c) log counts ∧ n = counts.sum
  error : ∀ f, result = .error f → ∃ served b outcomes, log = served ++ [(b, outcomes)] ∧
    (∀ p ∈ served, ∃ c, p.1.Reports p.2 c) ∧ b.Fails limit outcomes f

/-- On every line, whatever outcomes it has coming, a call delivers the batches of a plan. -/
def Delivers (limit : Nat) (idle : outcome) (plan : List (Batch request outcome)) (call : Delivery request outcome Int) : Prop :=
  ∀ line, ∃ log, Delivered limit idle plan line (call line).1 (call line).2 log

variable {limit : Nat} {idle : outcome} {plan more : List (Batch request outcome)} {line mid after : Line request outcome}
  {result : Except StoreFailure Int} {log rest : Log request outcome}

/-- The attempts of two logs are those of the first and then of the second. -/
theorem Log.attempts_append (log rest : Log request outcome) : Log.attempts (log ++ rest) = Log.attempts log ++ Log.attempts rest :=
  List.flatMap_append

/-- So are the rows that were delivered. -/
theorem Log.delivered_append (log rest : Log request outcome) :
    Log.delivered (log ++ rest) = Log.delivered log ++ Log.delivered rest := List.flatMap_append

/-- A batch that has come to a report was delivered with the last of its attempts and not before. -/
theorem Batch.Reports.delivered {b : Batch request outcome} {outcomes : List outcome} {count : Int} (h : b.Reports outcomes count)
    (again : ∀ o ∈ outcomes.dropLast, ∃ f, b.verdict o = .passing f) : Log.delivered [(b, outcomes)] = b.rows := by
  obtain ⟨o, hlast, hverdict⟩ := h
  obtain ⟨init, rfl⟩ := List.getLast?_eq_some_iff.1 hlast
  rw [List.dropLast_concat] at again
  have hinit : init.filter (fun o => (b.verdict o).isSuccess) = [] := by
    refine List.filter_eq_nil_iff.2 fun x hx => ?_
    obtain ⟨f, hf⟩ := again x hx
    simp [hf, Attempt.isSuccess]
  have hfilter : (init ++ [o]).filter (fun o => (b.verdict o).isSuccess) = [o] := by
    rw [List.filter_append, hinit]
    simp [hverdict, Attempt.isSuccess]
  simp only [Log.delivered, List.flatMap_cons, List.flatMap_nil, List.append_nil, hfilter]

/-- Where counts are reported, every batch of the log has reported one. -/
theorem Log.exists_reports {counts : List Int} (h : List.Forall₂ (fun p c => p.1.Reports p.2 c) log counts) :
    ∀ p ∈ log, ∃ c, p.1.Reports p.2 c := by
  induction h with
  | nil => simp
  | cons hp _ ih =>
    intro q hq
    rcases List.mem_cons.1 hq with rfl | hq
    · exact ⟨_, hp⟩
    · exact ih q hq

namespace Delivered

/-- A plan without batches is delivered by doing nothing. -/
theorem nil (limit : Nat) (idle : outcome) (line : Line request outcome) : Delivered limit idle [] line (.ok 0) line [] where
  order := List.nil_prefix
  advances := Line.Advances.refl idle line
  limited := by simp
  again := by simp
  ok := by
    rintro n ⟨⟩
    exact ⟨rfl, rfl, [], List.Forall₂.nil, rfl⟩
  error := nofun

/-- The attempts to deliver one batch. -/
theorem single {b : Batch request outcome} {outcomes : List outcome} (h : Attempted limit b.verdict outcomes result)
    (hline : line.Advances idle after (outcomes.map (b.request, ·))) :
    Delivered limit idle [b] line result after [(b, outcomes)] where
  order := List.prefix_rfl
  advances := by simpa [Log.attempts] using hline
  limited := by simpa using h.limited
  again := by simpa using h.again
  ok := by
    rintro n rfl
    have hreports : b.Reports outcomes n := h.ends
    refine ⟨rfl, ?_, [n], List.Forall₂.cons hreports List.Forall₂.nil, by simp⟩
    rw [hreports.delivered h.again]
    simp
  error := by
    rintro f rfl
    exact ⟨[], b, outcomes, rfl, by simp, Or.inr h.ends⟩

/-- A batch that cannot be sent fails without an attempt. -/
theorem unsendable {b : Batch request outcome} {f : StoreFailure} (h : b.unsendable = some f) (limit : Nat) (idle : outcome)
    (line : Line request outcome) : Delivered limit idle [b] line (.error f) line [(b, [])] where
  order := List.prefix_rfl
  advances := Line.Advances.refl idle line
  limited := by simp
  again := by simp
  ok := nofun
  error := by
    rintro f' ⟨⟩
    exact ⟨[], b, [], rfl, by simp, Or.inl ⟨h, rfl⟩⟩

/-- A call goes on with further batches once all batches so far are delivered. -/
theorem append {n : Int} (h : Delivered limit idle plan line (.ok n) mid log) (h' : Delivered limit idle more mid result after rest) :
    Delivered limit idle (plan ++ more) line (result.map (n + ·)) after (log ++ rest) := by
  obtain ⟨hplan, hdelivered, counts, hcounts, rfl⟩ := h.ok n rfl
  constructor
  · rw [List.map_append, hplan]
    exact (List.prefix_append_right_inj plan).2 h'.order
  · rw [Log.attempts_append]
    exact h.advances.trans h'.advances
  · intro p hp
    exact (List.mem_append.1 hp).elim (h.limited p) (h'.limited p)
  · intro p hp
    exact (List.mem_append.1 hp).elim (h.again p) (h'.again p)
  · intro m hm
    cases result with
    | error f => nomatch hm
    | ok k =>
      obtain ⟨hmore, hrest, counts', hcounts', rfl⟩ := h'.ok k rfl
      cases hm
      refine ⟨by rw [List.map_append, hplan, hmore], ?_, counts ++ counts', List.rel_append hcounts hcounts', by simp⟩
      rw [Log.delivered_append, hdelivered, hrest, List.flatMap_append]
  · intro f hf
    cases result with
    | ok k => nomatch hf
    | error f' =>
      cases hf
      obtain ⟨served, b, outcomes, rfl, hserved, hfails⟩ := h'.error f rfl
      refine ⟨log ++ served, b, outcomes, (List.append_assoc ..).symm, ?_, hfails⟩
      intro p hp
      rcases List.mem_append.1 hp with hp | hp
      · exact Log.exists_reports hcounts p hp
      · exact hserved p hp

/-- A call that has failed does not go on with further batches. -/
theorem of_error {f : StoreFailure} (h : Delivered limit idle plan line (.error f) after log) (more : List (Batch request outcome)) :
    Delivered limit idle (plan ++ more) line (.error f) after log where
  order := h.order.trans (List.prefix_append plan more)
  advances := h.advances
  limited := h.limited
  again := h.again
  ok := nofun
  error := h.error

end Delivered

namespace Delivers

variable {policy : RetryPolicy} {b : Batch request outcome} {call call' : Delivery request outcome Int}

/-- A call that does nothing delivers no batches. -/
theorem nil (limit : Nat) (idle : outcome) : Delivers limit idle ([] : List (Batch request outcome)) (pure 0) :=
  fun line => ⟨[], Delivered.nil limit idle line⟩

/-- To ask a request is to deliver its batch. -/
theorem single (hlimit : 1 ≤ policy.attempts) (b : Batch request outcome) :
    Delivers policy.attempts idle [b] (ask policy idle b.verdict b.request) := by
  intro line
  obtain ⟨outcomes, hattempted, hline⟩ := line.deliver_spec policy idle b.verdict b.request (policy.attempts - 1) 0
  rw [Nat.sub_add_cancel hlimit] at hattempted
  exact ⟨_, Delivered.single hattempted hline⟩

/-- A call that refuses a batch that cannot be sent has dealt with it. -/
theorem unsendable {f : StoreFailure} (h : b.unsendable = some f) (limit : Nat) (idle : outcome) :
    Delivers limit idle [b] (throw f) := fun line => ⟨_, Delivered.unsendable h limit idle line⟩

/-- One call after the other delivers the batches of both. -/
theorem append (h : Delivers limit idle plan call) (h' : Delivers limit idle more call') :
    Delivers limit idle (plan ++ more) (do let n ← call; return n + (← call')) := by
  intro line
  obtain ⟨log, hlog⟩ := h line
  rw [bind_apply]
  rcases hcall : call line with ⟨f | n, mid⟩ <;> rw [hcall] at hlog
  · exact ⟨log, hlog.of_error more⟩
  · obtain ⟨rest, hrest⟩ := h' mid
    dsimp only
    rw [bind_apply]
    rcases hcall' : call' mid with ⟨f | k, after⟩ <;> rw [hcall'] at hrest
    · exact ⟨_, hlog.append hrest⟩
    · exact ⟨_, hlog.append hrest⟩

/-- Sending batches one after the other delivers them all. -/
theorem sendAll {α : Type} {send : List α → Delivery request outcome Int} {batchOf : List α → Batch request outcome}
    (h : ∀ b, Delivers limit idle [batchOf b] (send b)) (bs : List (List α)) :
    Delivers limit idle (bs.map batchOf) (Delivery.sendAll send bs) := by
  induction bs with
  | nil => exact nil limit idle
  | cons b bs ih => exact (h b).append ih

end Delivers

/-! ## Batches -/

/-- Rows in batches, in their order. No batch is empty, and none is larger than the size. -/
structure IsBatched {α : Type} (size : Nat) (rows : List α) (bs : List (List α)) : Prop where
  flatten : bs.flatten = rows
  nonempty : ∀ b ∈ bs, b ≠ []
  bounded : ∀ b ∈ bs, b.length ≤ size

namespace IsBatched

variable {α : Type} {size : Nat}

/-- No rows are in no batches. -/
theorem nil (size : Nat) : IsBatched size ([] : List α) [] := ⟨rfl, by simp, by simp⟩

/-- Rows in batches have another batch in front, if it is neither empty nor too large. -/
theorem cons {b rows : List α} {bs : List (List α)} (hb : b ≠ []) (hsize : b.length ≤ size) (h : IsBatched size rows bs) :
    IsBatched size (b ++ rows) (b :: bs) where
  flatten := by rw [List.flatten_cons, h.flatten]
  nonempty := List.forall_mem_cons.2 ⟨hb, h.nonempty⟩
  bounded := List.forall_mem_cons.2 ⟨hsize, h.bounded⟩

end IsBatched

/-- Rows are cut into batches in their order, none of them empty or too large. -/
theorem isBatched_batches {α : Type} {size : Nat} (hsize : 1 ≤ size) (rows : List α) : IsBatched size rows (batches size rows) := by
  fun_induction batches size rows with
  | case1 => exact IsBatched.nil size
  | case2 r rs ih =>
    have hlength : (r :: rs.take (size - 1)).length ≤ size := by
      rw [List.length_cons, List.length_take]
      omega
    have h := ih.cons (List.cons_ne_nil _ _) hlength
    rwa [List.cons_append, List.take_append_drop] at h

end Delivery

end CodeAtlas
