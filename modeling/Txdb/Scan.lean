import Txdb.Store

/-! The loop every scan of txdb.cpp runs after its `Seek`: `while (pcursor->Valid())`, a body
that decides on the record under the cursor, and `pcursor->Next()`. The scans differ only in
their seek key and their body.
-/

namespace Txdb

/-- What a scan body decides for the record under the cursor. -/
inductive ScanStep (α : Type)
  /-- append a result and advance -/
  | push (a : α)
  /-- advance without appending -/
  | skip
  /-- `break`: the loop ends and the function returns `true` -/
  | stop
  /-- `return error(...)`: the function returns `false` -/
  | fail
  /-- a null pointer is dereferenced: the behaviour is undefined -/
  | abort

/-- The step neither returns an error nor has undefined behaviour. -/
def ScanStep.isOk {α : Type} : ScanStep α → Bool
  | .fail | .abort => false
  | _ => true

/-- The step that appends a result when there is one and skips the record otherwise. -/
def ScanStep.ofOption {α : Type} : Option α → ScanStep α
  | some a => .push a
  | none => .skip

/-- The scan loop over a cursor, threading the state its body updates. It returns how the
function ends (`some true`, `some false`, or `none` for undefined behaviour), the results
appended in order, and the final state.
-/
def scan {σ α : Type} (body : σ → Entry → ScanStep α × σ) (st : σ)
    : List Entry → Option Bool × List α × σ
  | [] => (some true, [], st)
  | e :: rest =>
      match (body st e).1 with
      | .push a =>
          let r := scan body (body st e).2 rest
          (r.1, a :: r.2.1, r.2.2)
      | .skip => scan body (body st e).2 rest
      | .stop => (some true, [], (body st e).2)
      | .fail => (some false, [], (body st e).2)
      | .abort => (none, [], (body st e).2)

section Scan

variable {σ α : Type} (body : σ → Entry → ScanStep α × σ)

@[simp] theorem scan_nil (st : σ) : scan body st [] = (some true, [], st) := rfl

theorem scan_cons_push {st : σ} {e : Entry} {a : α} (h : (body st e).1 = .push a)
    (rest : List Entry)
    : scan body st (e :: rest)
      = ((scan body (body st e).2 rest).1, a :: (scan body (body st e).2 rest).2.1,
          (scan body (body st e).2 rest).2.2) := by
  simp only [scan, h]

theorem scan_cons_skip {st : σ} {e : Entry} (h : (body st e).1 = .skip) (rest : List Entry)
    : scan body st (e :: rest) = scan body (body st e).2 rest := by
  simp only [scan, h]

theorem scan_cons_stop {st : σ} {e : Entry} (h : (body st e).1 = .stop) (rest : List Entry)
    : scan body st (e :: rest) = (some true, [], (body st e).2) := by
  simp only [scan, h]

theorem scan_cons_fail {st : σ} {e : Entry} (h : (body st e).1 = .fail) (rest : List Entry)
    : scan body st (e :: rest) = (some false, [], (body st e).2) := by
  simp only [scan, h]

theorem scan_cons_abort {st : σ} {e : Entry} (h : (body st e).1 = .abort) (rest : List Entry)
    : scan body st (e :: rest) = (none, [], (body st e).2) := by
  simp only [scan, h]

/-- A scan whose body, from every state of an invariant, neither errs nor misbehaves and keeps the
invariant returns true; witness: induction on the cursor.
-/
theorem scan_eq_true (Inv : σ → Prop) {cursor : List Entry}
    (hstep : ∀ st, ∀ e ∈ cursor, Inv st → (body st e).1.isOk ∧ Inv (body st e).2)
    {st : σ} (hst : Inv st)
    : (scan body st cursor).1 = some true := by
  induction cursor generalizing st with
  | nil => rfl
  | cons e rest ih =>
      obtain ⟨ok, next⟩ := hstep st e (List.mem_cons_self _ _) hst
      have tail := ih (fun st' e' he' hst' => hstep st' e' (List.mem_cons_of_mem _ he') hst') next
      cases hb : (body st e).1 with
      | push a => rw [scan_cons_push body hb]; exact tail
      | skip => rw [scan_cons_skip body hb]; exact tail
      | stop => rw [scan_cons_stop body hb]
      | fail => simp [hb, ScanStep.isOk] at ok
      | abort => simp [hb, ScanStep.isOk] at ok

/-- A body that, in a state it leaves alone, appends or skips each record of `run` passes over
`run` with the results it selects; witness: induction on `run`.
-/
theorem scan_append_of_keep (out : Entry → Option α) {st : σ} {run : List Entry}
    (hrun : ∀ e ∈ run, body st e = (.ofOption (out e), st)) (rest : List Entry)
    : scan body st (run ++ rest)
      = ((scan body st rest).1, run.filterMap out ++ (scan body st rest).2.1,
          (scan body st rest).2.2) := by
  induction run with
  | nil => rfl
  | cons e run ih =>
      have tail := ih fun e' he' => hrun e' (List.mem_cons_of_mem _ he')
      have he := hrun e (List.mem_cons_self _ _)
      cases hout : out e with
      | some a =>
          rw [hout] at he
          rw [List.cons_append, scan_cons_push body (by rw [he]; rfl), he, tail,
            List.filterMap_cons_some hout]
          rfl
      | none =>
          rw [hout] at he
          rw [List.cons_append, scan_cons_skip body (by rw [he]; rfl), he, tail,
            List.filterMap_cons_none hout]

/-- A scan that stops at its first record, in a state it leaves alone, or that has none, returns
true with nothing appended.
-/
theorem scan_of_stop {st : σ} {rest : List Entry} (h : ∀ e ∈ rest.head?, body st e = (.stop, st))
    : scan body st rest = (some true, [], st) := by
  cases rest with
  | nil => rfl
  | cons e rest =>
      have he := h e rfl
      rw [scan_cons_stop body (by rw [he]), he]

/-- A scan that, after `run`, meets a record at which its body stops in every state leaving it
alone returns what it returns over `run` alone; witness: induction on `run`.
-/
theorem scan_append_of_head_stop {rest : List Entry}
    (hrest : ∀ st, ∀ e ∈ rest.head?, body st e = (.stop, st)) (run : List Entry) (st : σ)
    : scan body st (run ++ rest) = scan body st run := by
  induction run generalizing st with
  | nil => exact scan_of_stop body (hrest st)
  | cons e run ih =>
      rw [List.cons_append]
      simp only [scan, ih]

/-- A body that skips each record of `run` in a state it leaves alone passes over them. -/
theorem scan_append_of_skip {st : σ} {run : List Entry} (hrun : ∀ e ∈ run, body st e = (.skip, st))
    (rest : List Entry)
    : scan body st (run ++ rest) = scan body st rest := by
  induction run with
  | nil => rfl
  | cons e run ih =>
      have he := hrun e (List.mem_cons_self _ _)
      rw [List.cons_append, scan_cons_skip body (by rw [he]), he]
      exact ih fun e' he' => hrun e' (List.mem_cons_of_mem _ he')

/-- A body that, in a state it leaves alone, skips or stops at each record returns true with
nothing appended and that state.
-/
theorem scan_of_skip_or_stop {st : σ} {run : List Entry}
    (hrun : ∀ e ∈ run, body st e = (.skip, st) ∨ body st e = (.stop, st))
    : scan body st run = (some true, [], st) := by
  induction run with
  | nil => rfl
  | cons e run ih =>
      rcases hrun e (List.mem_cons_self _ _) with he | he
      · rw [scan_cons_skip body (by rw [he]), he]
        exact ih fun e' he' => hrun e' (List.mem_cons_of_mem _ he')
      · rw [scan_cons_stop body (by rw [he]), he]

/-- A body that skips the records `run` lists, from the states of an invariant that it keeps,
passes over them to the state its updates fold to; witness: induction on `run`.
-/
theorem scan_map_append_of_skip {β : Type} (f : β → Entry) (g : σ → β → σ) (Inv : σ → Prop)
    {run : List β} (hrun : ∀ st, ∀ r ∈ run, Inv st → body st (f r) = (.skip, g st r) ∧ Inv (g st r))
    {st : σ} (hst : Inv st) (rest : List Entry)
    : scan body st (run.map f ++ rest) = scan body (run.foldl g st) rest := by
  induction run generalizing st with
  | nil => rfl
  | cons r run ih =>
      obtain ⟨skip, next⟩ := hrun st r (List.mem_cons_self _ _) hst
      have skipped : (body st (f r)).1 = .skip := by rw [skip]
      rw [List.map_cons, List.cons_append, scan_cons_skip body skipped, List.foldl_cons, skip]
      exact ih (fun st' r' hr' hst' => hrun st' r' (List.mem_cons_of_mem _ hr') hst') next

/-- A body that, on each record of `run`, skips it with the update `g` or ends the function with an
error or undefined behaviour returns true over `run ++ rest` only by skipping all of `run`: each
record is skipped from some state, and the scan goes on from the state the updates fold to.
Witness: induction on `run`.
-/
theorem scan_append_of_eq_true (g : σ → Entry → σ) {run : List Entry}
    (hrun : ∀ st, ∀ e ∈ run, body st e = (.skip, g st e) ∨ (body st e).1.isOk = false)
    {st : σ} {rest : List Entry} (h : (scan body st (run ++ rest)).1 = some true)
    : (∀ e ∈ run, ∃ st', body st' e = (.skip, g st' e))
      ∧ scan body st (run ++ rest) = scan body (run.foldl g st) rest := by
  induction run generalizing st with
  | nil => exact ⟨fun _ he => absurd he (List.not_mem_nil _), rfl⟩
  | cons e run ih =>
      rcases hrun st e (List.mem_cons_self _ _) with skip | err
      · have skipped : (body st e).1 = .skip := by rw [skip]
        rw [List.cons_append, scan_cons_skip body skipped, skip] at h ⊢
        obtain ⟨each, tail⟩ := ih (fun st' e' he' => hrun st' e' (List.mem_cons_of_mem _ he')) h
        exact ⟨List.forall_mem_cons.mpr ⟨⟨st, skip⟩, each⟩, tail⟩
      · have ended : (scan body st (e :: (run ++ rest))).1 ≠ some true := by
          cases hb : (body st e).1 with
          | push a => simp [hb, ScanStep.isOk] at err
          | skip => simp [hb, ScanStep.isOk] at err
          | stop => simp [hb, ScanStep.isOk] at err
          | fail => simp [scan_cons_fail body hb]
          | abort => simp [scan_cons_abort body hb]
        exact absurd h ended

end Scan

-----------------------------------------------------------------------------------------
-- Scans whose body keeps no state
-----------------------------------------------------------------------------------------

section Pure

variable {α : Type} (step : Entry → ScanStep α)

/-- A scan whose body only reads the record: the state is `Unit`. -/
def scanPure (cursor : List Entry) : Option Bool × List α :=
  let r := scan (fun (_ : Unit) e => (step e, ())) () cursor
  (r.1, r.2.1)

/-- A stateless scan over records that it appends or skips as `out` says, followed by a record at
which it stops or by nothing, returns true with the appended results.
-/
theorem scanPure_keep_stop (out : Entry → Option α) {run rest : List Entry}
    (hrun : ∀ e ∈ run, step e = .ofOption (out e)) (hrest : ∀ e ∈ rest.head?, step e = .stop)
    : scanPure step (run ++ rest) = (some true, run.filterMap out) := by
  rw [scanPure, scan_append_of_keep _ out (fun e he => by rw [hrun e he]) rest,
    scan_of_stop _ (fun e he => by rw [hrest e he]), List.append_nil]

end Pure

end Txdb
