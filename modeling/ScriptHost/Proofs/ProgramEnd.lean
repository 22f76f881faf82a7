import ScriptHost.Proofs.Diagnostics
import ScriptHost.Proofs.ProcessConsole
import ScriptHost.Proofs.Utf8Decoding

/-! Whole programs at a console that does not fail, and how they end at the first call that fails. -/
namespace ScriptHost

open Utf8 (Bytes)

namespace Execution

variable {p : Process} {c : Call} {e : RuntimeError}

theorem run_cons_of_error (failed : (p.call c).1 = .error e) (later : List Call) :
    run p (c :: later) = ⟨[], some e, (p.call c).2.abort e⟩ := by
  cases called : p.call c with
  | mk result next =>
    rw [called] at failed
    cases failed
    simp only [run, called]

theorem final_of_ok {calls : List Call} (ran : (run p calls).failure = none) :
    (run p calls).final = p.after calls ∧ (run p calls).replies.length = calls.length := by
  induction calls generalizing p with
  | nil => exact ⟨rfl, rfl⟩
  | cons c rest ih =>
    obtain ⟨reply, next, called, behind, whole⟩ := run_cons_of_ok ran
    obtain ⟨final, count⟩ := ih behind
    have state : next = (p.call c).2 := by rw [called]
    rw [whole, Process.after, ← state]
    exact ⟨final, congrArg (· + 1) count⟩

/-- A call that fails ends the program, whatever calls come later. -/
theorem run_of_error {first : List Call} (ran : (run p first).failure = none)
    (failed : ((p.after first).call c).1 = .error e) (later : List Call) :
    run p (first ++ c :: later) =
      ⟨(run p first).replies, some e, ((p.after first).call c).2.abort e⟩ := by
  induction first generalizing p with
  | nil => exact run_cons_of_error failed later
  | cons d rest ih =>
    obtain ⟨reply, next, called, behind, whole⟩ := run_cons_of_ok ran
    have state : (p.call d).2 = next := by rw [called]
    rw [Process.after, state] at failed ⊢
    rw [whole, List.cons_append, run, called]
    simp only [ih behind failed]

/-- A program that fails has a first call that fails. -/
theorem exists_of_failure {calls : List Call} (failed : (run p calls).failure = some e) :
    ∃ first c later, calls = first ++ c :: later ∧ (run p first).failure = none ∧
      ((p.after first).call c).1 = .error e := by
  induction calls generalizing p with
  | nil => cases failed
  | cons d rest ih =>
    cases called : p.call d with
    | mk result next =>
      cases result with
      | error cause =>
        simp only [run, called] at failed
        cases failed
        exact ⟨[], d, rest, rfl, rfl, by rw [Process.after, called]⟩
      | ok reply =>
        simp only [run, called] at failed
        obtain ⟨first, c, later, rfl, succeeded, cause⟩ := ih failed
        refine ⟨d :: first, c, later, rfl, ?_, ?_⟩
        · simp only [run, called, succeeded]
        · rw [Process.after, called]
          exact cause

/-- A call that would fail ends the program, or an earlier one did. -/
theorem failure_of_error {first : List Call} (failed : ((p.after first).call c).1 = .error e)
    (later : List Call) : (run p (first ++ c :: later)).failure.isSome := by
  induction first generalizing p with
  | nil =>
    have first : (p.call c).1 = .error e := failed
    rw [List.nil_append, run_cons_of_error first]
    rfl
  | cons d rest ih =>
    cases called : p.call d with
    | mk result next =>
      rw [Process.after, called] at failed
      cases result with
      | error cause => simp only [List.cons_append, run, called]; rfl
      | ok reply =>
        simp only [List.cons_append, run, called]
        exact ih failed

theorem isSome_failure_iff {calls : List Call} : (run p calls).failure.isSome ↔
    ∃ first c later e, calls = first ++ c :: later ∧ ((p.after first).call c).1 = .error e := by
  constructor
  · intro ended
    obtain ⟨e, failure⟩ := Option.isSome_iff_exists.mp ended
    obtain ⟨first, c, later, split, _, cause⟩ := exists_of_failure failure
    exact ⟨first, c, later, e, split, cause⟩
  · rintro ⟨first, c, later, e, rfl, cause⟩
    exact failure_of_error cause later

end Execution

theorem IsPrintableText.bytes {s : String} (printable : IsPrintableText s) {b : UInt8}
    (member : b ∈ Utf8.ofString s) : 0x20 ≤ b.toNat ∧ b.toNat ≤ 0x7E := by
  obtain ⟨c, inside, byte⟩ := List.mem_flatMap.mp member
  obtain ⟨low, high⟩ := printable c inside
  rw [Utf8.encodeChar_of_ascii (Nat.le_trans high (by decide)), List.mem_singleton] at byte
  have number : b.toNat = c.toNat := by
    rw [byte]
    exact UInt8.toNat_ofNat_of_lt' (Nat.lt_of_le_of_lt high (by decide))
  rw [number]
  exact ⟨low, high⟩

namespace Execution

/-- The text of the line that a program ends with when it fails. -/
def lastLine (e : RuntimeError) : Bytes := Utf8.ofString ("RUNTIME ERROR: " ++ e.message)

theorem written_abort {p : Process} (unfailing : p.output.Unfailing) (e : RuntimeError) :
    (p.abort e).output.written = p.output.written ++ lastLine e ++ [0x0A] := by
  have logged : (p.log (.fatal e)).output = p.output := congrArg Prod.snd (p.console_log _)
  have line : Utf8.ofString (e.diagnostic ++ "\n") = lastLine e ++ [0x0A] :=
    Utf8.ofString_append _ _
  simp only [Process.abort, logged, unfailing.write, Output.written_adding, line, List.append_assoc]

section Steady

variable {p : Process} {c : Call} {e : RuntimeError}

theorem written_of_ok {calls : List Call} (steady : p.Steady) (fresh : p.output.written = [])
    (ran : (run p calls).failure = none) :
    (run p calls).final.output.written = p.transcript calls := by
  rw [(final_of_ok ran).1, steady.written_after calls, fresh, List.nil_append]

/-- What the failing call wrote itself stands between the earlier output and the line with the cause. -/
theorem written_of_error {first : List Call} (steady : p.Steady) (fresh : p.output.written = [])
    (ran : (run p first).failure = none) (failed : ((p.after first).call c).1 = .error e)
    (later : List Call) :
    (run p (first ++ c :: later)).final.output.written =
      p.transcript first ++ (p.after first).wrote c ++ lastLine e ++ [0x0A] := by
  have reached : (p.after first).Steady := steady.after first
  rw [run_of_error ran failed later, written_abort (reached.call c).output, reached.written_call c,
    steady.written_after first, fresh, List.nil_append]

theorem printable_lastLine (steady : p.Steady) (failed : (p.call c).1 = .error e) {b : UInt8}
    (member : b ∈ lastLine e) : 0x20 ≤ b.toNat ∧ b.toNat ≤ 0x7E := by
  have internal : ∀ reason, e ≠ .io reason := by
    rintro reason rfl
    exact steady.internal_call c reason failed
  exact (RuntimeError.isPrintable_diagnostic internal).bytes member

/-- A read sees the bytes that are left, and nothing of how they came. -/
theorem input_of_unread (steady : p.Steady) (prompt : Option Bytes) (letter : UInt8) :
    let seeing := { p with input := [.data p.input.unread] }.call (.input prompt letter)
    (p.call (.input prompt letter)).1 = seeing.1 ∧
    (p.call (.input prompt letter)).2.output = seeing.2.output ∧
    (p.call (.input prompt letter)).2.input.unread = seeing.2.input.unread := by
  intro seeing
  have same : Input.signals [.data p.input.unread] = p.input.signals := by
    rw [steady.input, Input.signals_data, Input.signals_nil, List.append_nil]
  obtain ⟨answers, outputs, inputs⟩ := Process.input_congr same prompt letter
  refine ⟨answers.symm, outputs.symm, ?_⟩
  calc (p.call (.input prompt letter)).2.input.unread
      = (p.call (.input prompt letter)).2.input.signals.filterMap Signal.byte? :=
        Input.unread_eq_filterMap _
    _ = seeing.2.input.signals.filterMap Signal.byte? := by rw [← inputs]
    _ = seeing.2.input.unread := (Input.unread_eq_filterMap _).symm

end Steady

end Execution
end ScriptHost
