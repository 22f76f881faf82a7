import ScriptHost.Proofs.FailureCauses
import ScriptHost.Proofs.ProcessRuns

/-! The calls of a process at its console. Only reads, prints and reports reach it; on a console that does not
fail, what they write goes behind what was written before, what they read is taken from the front, and
no call fails for a cause outside the program. -/
namespace ScriptHost

open Utf8 (Bytes)

def Call.reads : Call → Bool
  | .input .. => true
  | _ => false

namespace Process

variable {p : Process} {c : Call}

def console (p : Process) : Input × Output := (p.input, p.output)

/-- The same process with an empty output that does not fail. -/
def cleared (p : Process) : Process := { p with output := .empty none false }

/-- What a call writes by itself. -/
def wrote (p : Process) (c : Call) : Bytes := (p.cleared.call c).2.output.written

/-- The process behind some calls, failing ones included. -/
def after (p : Process) : List Call → Process
  | [] => p
  | c :: rest => (p.call c).2.after rest

def transcript (p : Process) : List Call → Bytes
  | [] => []
  | c :: rest => p.wrote c ++ (p.call c).2.transcript rest

theorem after_append (p : Process) (first later : List Call) :
    p.after (first ++ later) = (p.after first).after later := by
  induction first generalizing p with
  | nil => rfl
  | cons c rest ih => exact ih _

/-! Only reads, prints and reports reach the console. -/

theorem console_logAll (p : Process) (events : List LogEvent) :
    (p.logAll events).console = p.console := by
  obtain ⟨errors, logged⟩ := p.logAll_eq events
  rw [logged]
  rfl

theorem console_log (p : Process) (event : LogEvent) : (p.log event).console = p.console := by
  obtain ⟨errors, logged⟩ := p.log_eq event
  rw [logged]
  rfl

theorem console_demandHeap (p : Process) : p.demandHeap.2.console = p.console :=
  Prod.ext p.input_demandHeap p.output_demandHeap

theorem console_withHeap {α : Type} (p : Process) (operation : Heap → Outcome α × Heap)
    (events : α → Heap → List LogEvent) : (p.withHeap operation events).2.console = p.console := by
  rw [withHeap_eq]
  split
  · exact p.console_demandHeap
  · exact (console_logAll _ _).trans p.console_demandHeap

theorem console_storing (p : Process) (value : RawValue)
    (operation : Heap → Value → Outcome Unit × Heap) :
    (p.storing value operation).2.console = p.console := by
  unfold storing
  split
  · rfl
  · exact p.console_withHeap _ _

/-- A heap comes from the process's own heap, environment and platform. -/
theorem demandHeap_congr {q : Process} (live : q.live = p.live) (environment : q.environment = p.environment)
    (platform : q.platform = p.platform) : q.demandHeap.1 = p.demandHeap.1 := by
  unfold demandHeap
  rw [live, environment, platform]
  cases p.live <;> rfl

theorem heap_congr {q : Process} (live : q.live = p.live) (environment : q.environment = p.environment)
    (platform : q.platform = p.platform) : q.heap = p.heap :=
  congrArg LiveHeap.heap (demandHeap_congr live environment platform)

/-! Reports. -/

/-- The setting that the next report finds. -/
def reportSettings? (p : Process) : Option ReportSettings := p.demandReportChoice.1.settings?

/-- Looking at the setting of the report leaves its mark, and at most a line in the log. -/
theorem demandReportChoice_eq (p : Process) :
    ∃ errors choice, p.demandReportChoice.2 = { p with errors := errors, reportChoice := choice } := by
  cases seen : p.reportChoice with
  | some choice =>
    simp only [demandReportChoice, seen]
    exact ⟨p.errors, some choice, by rw [← seen]⟩
  | none =>
    simp only [demandReportChoice, seen]
    obtain ⟨errors, logged⟩ := logAll_eq { p with reportChoice := some _ } _
    exact ⟨errors, _, logged⟩

theorem reportSettings?_congr {q : Process} (choice : q.reportChoice = p.reportChoice)
    (environment : q.environment = p.environment) : q.reportSettings? = p.reportSettings? := by
  unfold reportSettings? demandReportChoice
  rw [choice, environment]
  cases p.reportChoice <;> rfl

/-- The bytes of a report that go to the output: those of one in a file that is the output itself. -/
def reportShown (p : Process) (report : HeapReport) : Option Bytes :=
  p.reportSettings?.bind fun settings =>
    match settings.destination with
    | .stderr => none
    | .file path =>
      if p.files.kindOf path = .standardOutput then
        some (Utf8.ofString (report.render p.platform.writeObject settings.format))
      else none

theorem console_deliver_file (unfailing : p.output.Unfailing) (path text : String) :
    (p.deliver (.file path) text).console =
      (p.input, if p.files.kindOf path = .standardOutput then p.output.adding 1 (Utf8.ofString text)
        else p.output) := by
  cases kind : p.files.kindOf path with
  | regular | nullDevice | standardError =>
    simp only [deliver, kind]
    rfl
  | standardOutput =>
    have accepted : p.output.refusal? (Utf8.ofString text) = none := unfailing.writes ..
    simp only [deliver, kind, accepted, unfailing.write]
    rfl
  | failing failure =>
    cases failure with
    | notCreated reason | notWritten reason =>
      simp only [deliver, kind]
      exact console_log p _

theorem giveReport_eq (p : Process) (report : HeapReport) :
    p.giveReport report =
      match p.reportSettings? with
      | none => p.demandReportChoice.2
      | some settings => p.demandReportChoice.2.deliver settings.destination
          (report.render p.demandReportChoice.2.platform.writeObject settings.format) := rfl

theorem console_giveReport (unfailing : p.output.Unfailing) (report : HeapReport) :
    (p.giveReport report).console =
      (p.input, (p.reportShown report).elim p.output (p.output.adding 1)) := by
  obtain ⟨errors, choice, same⟩ := p.demandReportChoice_eq
  rw [giveReport_eq, same, reportShown]
  cases p.reportSettings? with
  | none => rfl
  | some settings =>
    obtain ⟨format, destination⟩ := settings
    cases destination with
    | stderr => rfl
    | file path =>
      have delivered := console_deliver_file
        (p := { p with errors := errors, reportChoice := choice }) unfailing path
        (report.render p.platform.writeObject format)
      refine delivered.trans ?_
      simp only [Option.bind_some]
      split <;> rfl

/-- The report that a clean-up gives. -/
def report (p : Process) : HeapReport := ⟨p.heap.stats, p.demandHeap.1.maxObjects⟩

theorem console_cleanUp (unfailing : p.output.Unfailing) :
    p.cleanUp.2.console = (p.input, (p.reportShown p.report).elim p.output (p.output.adding 1)) := by
  obtain ⟨errors, filter, same⟩ := p.demandHeap_eq
  let q : Process := { p with live := some p.demandHeap.1, errors := errors, logFilter := filter }
  have settings : q.reportSettings? = p.reportSettings? := reportSettings?_congr rfl rfl
  have shown : q.reportShown p.report = p.reportShown p.report := by
    rw [reportShown, settings]
    rfl
  have given : (q.giveReport p.report).console = _ := console_giveReport (p := q) unfailing p.report
  have cleaned : p.cleanUp.2.console = (p.demandHeap.2.giveReport p.report).console := console_logAll _ _
  rw [cleaned, same, given, shown]

/-- The report and where it goes do not depend on the console. -/
theorem reportShown_cleared (p : Process) : p.cleared.reportShown p.cleared.report = p.reportShown p.report := by
  have demanded : p.cleared.demandHeap.1 = p.demandHeap.1 := demandHeap_congr rfl rfl rfl
  have settings : p.cleared.reportSettings? = p.reportSettings? := reportSettings?_congr rfl rfl
  rw [report, heap, demanded, reportShown, settings]
  rfl

theorem read_eq (p : Process) (prompt : Bytes) (tag : TypeTag) :
    let reading := readTyped p.heap p.input p.output prompt tag
    (p.read prompt tag).1 = reading.result ∧
      (p.read prompt tag).2.console = (reading.input, reading.output) := by
  rw [← p.input_demandHeap, ← p.output_demandHeap]
  exact ⟨rfl, console_logAll _ _⟩

theorem print_eq (unfailing : p.output.Unfailing) (items : List (TypeTag × Value)) :
    (p.print items).1 = (lineText p.heap items).map (fun _ => ()) ∧
      (p.print items).2.console =
        (p.input, (lineText p.heap items).toOption.elim p.output (p.output.adding 2)) := by
  have printed := printItems_output unfailing p.heap items
  rw [← p.output_demandHeap] at printed
  rw [← p.input_demandHeap, ← p.output_demandHeap]
  exact ⟨congrArg Prod.fst printed, congrArg (p.demandHeap.2.input, Prod.snd ·) printed⟩

/-- What a call does at the console. -/
inductive AtConsole (c : Call) : Prop where
  | nothing (unread : c.reads = false) (same : ∀ p : Process, (p.call c).2.console = p.console)
  | reports (unread : c.reads = false) (succeeds : ∀ p : Process, ∃ reply, (p.call c).1 = .ok reply)
      (shows : ∀ p : Process, p.output.Unfailing → (p.call c).2.console =
        (p.input, (p.reportShown p.report).elim p.output (p.output.adding 1)))
  | prints (unread : c.reads = false) (items : List (TypeTag × Value))
      (performs : ∀ p : Process, p.call c = answer (fun _ => .nothing) (p.print items))
  | refuses {prompt : Option Bytes} {letter : UInt8} (asks : c = .input prompt letter)
      (e : RuntimeError) (performs : ∀ p : Process, p.call c = (.error e, p))
  | reads (prompt : Option Bytes) (letter : UInt8) (tag : TypeTag) (text : Bytes)
      (asks : c = .input prompt letter) (known : TypeTag.ofByte letter = .ok tag)
      (shown : promptFor prompt tag = .ok text)
      (performs : ∀ p : Process, p.call c = answer (.raw ·.encode) (p.read text tag))

theorem atConsole (c : Call) : AtConsole c := by
  cases c with
  | init => exact .nothing rfl console_demandHeap
  | cleanUp | cleanUpCounts => exact .reports rfl (fun _ => ⟨_, rfl⟩) fun _ => console_cleanUp
  | takeHeap => exact .nothing rfl fun _ => rfl
  | stats | stringBytes h | listGet h index | listLength h =>
    exact .nothing rfl console_demandHeap
  | createString bytes =>
    exact .nothing rfl fun p => p.console_withHeap (·.createString (bytes.getD [])) stringEvents
  | concatStrings a b =>
    exact .nothing rfl fun p =>
      p.console_withHeap (·.concatStrings (.ofBits a) (.ofBits b)) concatenationEvents
  | newList length =>
    exact .nothing rfl fun p => p.console_withHeap (·.newListChecked length) listEvents
  | listSlice h start stop =>
    exact .nothing rfl fun p =>
      p.console_withHeap (·.listSlice (.ofBits h) start stop) listEvents
  | fillNext h value | append h value => exact .nothing rfl fun p => p.console_storing value _
  | input prompt letter =>
    cases known : TypeTag.ofByte letter with
    | error e => exact .refuses rfl e fun p => by simp only [call, ask, known]; rfl
    | ok tag =>
      cases shown : promptFor prompt tag with
      | error e => exact .refuses rfl e fun p => by simp only [call, ask, known, shown]; rfl
      | ok text =>
        exact .reads prompt letter tag text rfl known shown fun p => by
          simp only [call, ask, known, shown]
  | print count items =>
    cases decoded : ((items.getD []).take count.toInt.toNat).mapM RawValue.toItem with
    | error e =>
      refine .nothing rfl fun p => ?_
      simp only [call, printRaw, decoded]
      rfl
    | ok items => exact .prints rfl items fun p => by simp only [call, printRaw, decoded]
  | printValue tag value => exact .prints rfl [(tag, value)] fun _ => rfl

/-- A console of plain input and unfailing output. -/
structure Steady (p : Process) : Prop where
  input : p.input.Plain
  output : p.output.Unfailing

theorem steady_start (platform : Platform) (environment : Environment) (kindOf : String → PathKind)
    (input : Bytes) : (start platform environment kindOf input).Steady :=
  ⟨Input.plain_data input, Output.unfailing_empty⟩

theorem heap_cleared (p : Process) : p.cleared.heap = p.heap := heap_congr rfl rfl rfl

/-- The prompts and notices of a read, if the call is one that comes to asking. -/
def Asked (c : Call) (text : Bytes) : Prop :=
  ∃ prompt letter tag front suffix rejections, c = .input prompt letter ∧
    TypeTag.ofByte letter = .ok tag ∧ promptFor prompt tag = .ok front ∧
    tag.promptSuffix = .ok suffix ∧ text = dialogue front (Utf8.ofString suffix) rejections

/-- Bytes that are added, if there are any, in so many calls. -/
theorem written_elim (added : Option Bytes) (calls : Nat) (output : Output) :
    (added.elim output (output.adding calls)).written = output.written ++ added.getD [] := by
  cases added with
  | none => exact (List.append_nil _).symm
  | some bytes => exact Output.written_adding ..

theorem exists_adding_elim (added : Option Bytes) (calls : Nat) (output : Output) :
    ∃ count, added.elim output (output.adding calls) = output.adding count (added.getD []) := by
  cases added with
  | none => exact ⟨0, output.adding_zero.symm⟩
  | some bytes => exact ⟨calls, rfl⟩

/-- What a call writes that adds some bytes or none, whatever stands in the output. -/
theorem wrote_of_elim {added : Option Bytes} {calls : Nat}
    (here : (p.call c).2.console = (p.input, added.elim p.output (p.output.adding calls)))
    (there : (p.cleared.call c).2.console =
      (p.cleared.input, added.elim p.cleared.output (p.cleared.output.adding calls))) :
    p.wrote c = added.getD [] ∧ ∃ count, (p.call c).2.output = p.output.adding count (p.wrote c) := by
  have text : p.wrote c = added.getD [] :=
    (congrArg (fun console => console.2.written) there).trans (written_elim ..)
  obtain ⟨count, shown⟩ := exists_adding_elim added calls p.output
  refine ⟨text, count, ?_⟩
  rw [text]
  exact (congrArg Prod.snd here).trans shown

/-- What a call writes goes behind what stands there, and depends on nothing of it. A call that fails
writes nothing, unless it asked. -/
theorem Steady.call_writes (steady : p.Steady) (c : Call) :
    (∃ calls, (p.call c).2.output = p.output.adding calls (p.wrote c)) ∧
      ∀ e, (p.call c).1 = .error e → p.wrote c = [] ∨ Asked c (p.wrote c) := by
  have empty : p.cleared.output.Unfailing := Output.unfailing_empty
  cases atConsole c with
  | nothing unread same =>
    have here : (p.call c).2.output = p.output := congrArg Prod.snd (same p)
    have there : (p.cleared.call c).2.output = p.cleared.output := congrArg Prod.snd (same p.cleared)
    have silent : p.wrote c = [] := congrArg Output.written there
    rw [here, silent]
    exact ⟨⟨0, p.output.adding_zero.symm⟩, fun _ _ => .inl rfl⟩
  | refuses asks e performs =>
    have silent : p.wrote c = [] := by rw [wrote, performs]; rfl
    rw [performs, silent]
    exact ⟨⟨0, p.output.adding_zero.symm⟩, fun _ _ => .inl rfl⟩
  | reports unread succeeds shows =>
    have there := shows p.cleared empty
    rw [reportShown_cleared] at there
    refine ⟨(wrote_of_elim (shows p steady.output) there).2, fun e failed => ?_⟩
    obtain ⟨reply, succeeded⟩ := succeeds p
    rw [failed] at succeeded
    cases succeeded
  | prints unread items performs =>
    obtain ⟨result, here⟩ := print_eq steady.output items
    obtain ⟨_, there⟩ := print_eq empty items
    rw [heap_cleared] at there
    obtain ⟨line, added⟩ := wrote_of_elim (c := c)
      ((congrArg (·.2.console) (performs p)).trans here)
      ((congrArg (·.2.console) (performs p.cleared)).trans there)
    refine ⟨added, fun e failed => .inl ?_⟩
    have answered : ((p.print items).1.map fun _ => Reply.nothing) = .error e := by
      rw [performs] at failed
      exact failed
    rw [result] at answered
    rw [line]
    cases text : lineText p.heap items with
    | error e => rfl
    | ok line => rw [text] at answered; cases answered
  | reads prompt letter tag front asks known shown performs =>
    obtain ⟨calls, text, shows, output, other⟩ :=
      readTyped_output steady.output empty p.heap p.input front tag
    obtain ⟨_, here⟩ := p.read_eq front tag
    obtain ⟨_, there⟩ := p.cleared.read_eq front tag
    rw [heap_cleared] at there
    have written : p.wrote c = text := by
      have result := congrArg (fun console => console.2.written) there
      rw [wrote, performs]
      have reading : (readTyped p.heap p.cleared.input p.cleared.output front tag).output.written = text := by
        change (readTyped p.heap p.input p.cleared.output front tag).output.written = text
        rw [other]
        exact Output.written_adding ..
      exact result.trans reading
    rw [performs, written]
    refine ⟨⟨calls, (congrArg Prod.snd here).trans output⟩, fun e failed => ?_⟩
    rcases shows with ⟨_, silent⟩ | ⟨suffix, rejections, readable, _, dialogue⟩
    · exact .inl silent
    · exact .inr ⟨prompt, letter, tag, front, suffix, rejections, asks, known, shown, readable, dialogue⟩

/-- A call takes bytes from the front of the input, and only a read takes any. -/
theorem Steady.call_input (steady : p.Steady) (c : Call) :
    (p.call c).2.input.signals <:+ p.input.signals ∧
      (c.reads = false → (p.call c).2.input = p.input) := by
  cases atConsole c with
  | nothing unread same =>
    have kept : (p.call c).2.input = p.input := congrArg Prod.fst (same p)
    rw [kept]
    exact ⟨List.suffix_rfl, fun _ => rfl⟩
  | refuses asks e performs =>
    rw [performs]
    exact ⟨List.suffix_rfl, fun _ => rfl⟩
  | reports unread _ shows =>
    have kept : (p.call c).2.input = p.input := congrArg Prod.fst (shows p steady.output)
    rw [kept]
    exact ⟨List.suffix_rfl, fun _ => rfl⟩
  | prints unread items performs =>
    have kept : (p.call c).2.input = p.input := by
      rw [performs]
      exact congrArg Prod.fst (print_eq steady.output items).2
    rw [kept]
    exact ⟨List.suffix_rfl, fun _ => rfl⟩
  | reads prompt letter tag front asks known shown performs =>
    subst asks
    have left : (p.call (.input prompt letter)).2.input =
        (readTyped p.heap p.input p.output front tag).input := by
      rw [performs]
      exact congrArg Prod.fst (p.read_eq front tag).2
    rw [left]
    refine ⟨readTyped_suffix p.heap p.input p.output front tag, ?_⟩
    intro unread
    cases unread

theorem Steady.call (steady : p.Steady) (c : Call) : (p.call c).2.Steady := by
  constructor
  · exact steady.input.of_suffix (steady.call_input c).1
  · obtain ⟨calls, added⟩ := (steady.call_writes c).1
    rw [added]
    exact steady.output.adding calls _

theorem Steady.after (steady : p.Steady) (calls : List Call) : (p.after calls).Steady := by
  induction calls generalizing p with
  | nil => exact steady
  | cons c rest ih => exact ih (steady.call c)

theorem Steady.written_call (steady : p.Steady) (c : Call) :
    (p.call c).2.output.written = p.output.written ++ p.wrote c := by
  obtain ⟨calls, added⟩ := (steady.call_writes c).1
  rw [added, Output.written_adding]

theorem Steady.written_after (steady : p.Steady) (calls : List Call) :
    (p.after calls).output.written = p.output.written ++ p.transcript calls := by
  induction calls generalizing p with
  | nil => exact (List.append_nil _).symm
  | cons c rest ih =>
    rw [Process.after, ih (steady.call c), steady.written_call c, transcript, List.append_assoc]

theorem Steady.input_after (steady : p.Steady) {calls : List Call}
    (unread : ∀ c ∈ calls, c.reads = false) : (p.after calls).input = p.input := by
  induction calls generalizing p with
  | nil => rfl
  | cons c rest ih =>
    have first := (steady.call_input c).2 (unread c List.mem_cons_self)
    have later := ih (steady.call c) fun d member => unread d (List.mem_cons_of_mem _ member)
    rw [Process.after, later, first]

theorem Steady.unread_after (steady : p.Steady) (calls : List Call) :
    (p.after calls).input.unread <:+ p.input.unread := by
  induction calls generalizing p with
  | nil => exact List.suffix_rfl
  | cons c rest ih =>
    exact (ih (steady.call c)).trans (Input.unread_suffix (steady.call_input c).1)

theorem internal_withHeap {α : Type} (p : Process) {operation : Heap → Outcome α × Heap}
    (internal : ∀ heap, Internal (operation heap).1) (events : α → Heap → List LogEvent) :
    Internal (p.withHeap operation events).1 := by
  rw [(p.withHeap_eq_operation operation events).1]
  exact internal p.heap

theorem internal_storing (p : Process) (value : RawValue)
    {operation : Heap → Value → Outcome Unit × Heap}
    (internal : ∀ heap v, Internal (operation heap v).1) :
    Internal (p.storing value operation).1 := by
  have decoded := value.internal_decode
  unfold storing
  split
  · next e failed => exact decoded.error failed
  · next v _ => exact p.internal_withHeap (internal · v) _

theorem internal_promptFor (prompt : Option Bytes) (tag : TypeTag) :
    Internal (promptFor prompt tag) := by
  cases prompt with
  | some bytes => exact .ok _
  | none => exact tag.internal_defaultPrompt.map _

theorem Steady.internal_print (steady : p.Steady) (items : List (TypeTag × Value)) :
    Internal (p.print items).1 := by
  rw [(print_eq steady.output items).1]
  exact (internal_lineText p.heap items).map _

theorem Steady.internal_ask (steady : p.Steady) (prompt : Option Bytes) (letter : UInt8) :
    Internal (p.ask prompt letter).1 := by
  have known := TypeTag.internal_ofByte letter
  unfold ask
  split
  · next e failed => exact known.error failed
  · next tag _ =>
    have shown := internal_promptFor prompt tag
    split
    · next e failed => exact shown.error failed
    · next text _ =>
      rw [(p.read_eq text tag).1]
      exact internal_readTyped p.heap steady.input steady.output text tag

/-- No call fails for a cause outside the program. -/
theorem Steady.internal_call (steady : p.Steady) (c : Call) : Internal (p.call c).1 := by
  cases c with
  | init | cleanUp | cleanUpCounts | takeHeap | stats => exact .ok _
  | createString bytes =>
    exact (p.internal_withHeap (fun heap => heap.internal_createString _) stringEvents).map _
  | concatStrings a b =>
    exact (p.internal_withHeap (fun heap => heap.internal_concatStrings _ _) concatenationEvents).map _
  | stringBytes h => exact (p.heap.internal_stringUntilZero _).map _
  | newList length =>
    exact (p.internal_withHeap (fun heap => heap.internal_newListChecked length) listEvents).map _
  | fillNext h value =>
    exact (p.internal_storing value fun heap v => heap.internal_fillNext _ v).map _
  | append h value =>
    exact (p.internal_storing value fun heap v => heap.internal_append _ v).map _
  | listGet h index => exact (p.heap.internal_listGet _ index).map _
  | listSlice h start stop =>
    exact (p.internal_withHeap (fun heap => heap.internal_listSlice _ start stop) listEvents).map _
  | listLength h => exact (p.heap.internal_listLength _).map _
  | input prompt letter => exact (steady.internal_ask prompt letter).map _
  | print count items =>
    have decoded := internal_mapM RawValue.internal_toItem ((items.getD []).take count.toInt.toNat)
    apply Internal.map
    split
    · next e failed => exact decoded.error failed
    · next items _ => exact steady.internal_print items
  | printValue tag value => exact (steady.internal_print _).map _

/-- A read sees the signals of its input and nothing else of it. -/
theorem input_congr {other : Input} (same : other.signals = p.input.signals) (prompt : Option Bytes)
    (letter : UInt8) :
    let q : Process := { p with input := other }
    (q.call (.input prompt letter)).1 = (p.call (.input prompt letter)).1 ∧
      (q.call (.input prompt letter)).2.output = (p.call (.input prompt letter)).2.output ∧
      (q.call (.input prompt letter)).2.input.signals =
        (p.call (.input prompt letter)).2.input.signals := by
  intro q
  have heap : q.heap = p.heap := heap_congr rfl rfl rfl
  cases atConsole (.input prompt letter) with
  | nothing unread | reports unread | prints unread => cases unread
  | refuses asks e performs =>
    rw [performs, performs]
    exact ⟨rfl, rfl, same⟩
  | reads prompt letter tag front asks known shown performs =>
    obtain ⟨result, console⟩ := p.read_eq front tag
    obtain ⟨otherResult, otherConsole⟩ := q.read_eq front tag
    rw [heap] at otherResult otherConsole
    have alike := readTyped_congr same p.heap p.output front tag
    rw [performs, performs]
    refine ⟨?_, ?_, ?_⟩
    · exact congrArg (Except.map _) (otherResult.trans (alike.result.trans result.symm))
    · have here : (p.read front tag).2.output = _ := congrArg Prod.snd console
      have there : (q.read front tag).2.output = _ := congrArg Prod.snd otherConsole
      exact there.trans (alike.output.trans here.symm)
    · have here : (p.read front tag).2.input = _ := congrArg Prod.fst console
      have there : (q.read front tag).2.input = _ := congrArg Prod.fst otherConsole
      exact (congrArg Input.signals there).trans
        (alike.input.trans (congrArg Input.signals here).symm)

end Process
end ScriptHost
