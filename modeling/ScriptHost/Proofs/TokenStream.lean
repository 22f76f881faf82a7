import ScriptHost.Proofs.ConsoleSession

/-! Byte streams taken apart by tokens and lines. Every read uses up a prefix of the stream that its
answer tells, so that reads in any order lose no byte and see none twice; tokens alone are the
maximal runs of bytes that are no separators. -/
namespace ScriptHost

open Utf8 (Bytes)

namespace Signal

variable {signals rest : List Signal}

theorem skipSeparators_conserves (signals : List Signal) :
    ∃ blank : Bytes, (∀ b ∈ blank, isSeparator b) ∧
      signals.filterMap byte? = blank ++ (skipSeparators signals).2.filterMap byte? := by
  fun_induction skipSeparators signals with
  | case1 => exact ⟨[], by simp, rfl⟩
  | case2 b rest separator ih =>
    obtain ⟨blank, separators, parts⟩ := ih
    refine ⟨b :: blank, ?_, congrArg (b :: ·) parts⟩
    intro c member
    rcases List.mem_cons.mp member with rfl | later
    · exact separator
    · exact separators c later
  | case3 | case4 | case5 => exact ⟨[], by simp, rfl⟩

/-- Skipping ends in front of a byte that starts a token. -/
theorem skipSeparators_stop (skipped : skipSeparators signals = (.ok (), rest)) :
    ∃ b behind, rest = .byte b :: behind ∧ isSeparator b = false := by
  fun_induction skipSeparators signals with
  | case1 | case4 | case5 => cases skipped
  | case2 b later separator ih => exact ih skipped
  | case3 b later other =>
    cases skipped
    exact ⟨b, later, rfl, Bool.eq_false_iff.mpr other⟩

theorem takeToken_conserves {token : Bytes} (taken : takeToken signals = (.ok token, rest)) :
    signals.filterMap byte? = token ++ rest.filterMap byte? ∧
      ∀ b ∈ token, isSeparator b = false := by
  fun_induction takeToken signals generalizing token rest with
  | case1 | case4 =>
    cases taken
    exact ⟨rfl, by simp⟩
  | case2 b later separator =>
    cases taken
    exact ⟨rfl, by simp⟩
  | case3 b later other result behind found ih =>
    cases result with
    | error e => cases taken
    | ok token =>
      obtain ⟨parts, others⟩ := ih found
      cases taken
      refine ⟨congrArg (b :: ·) parts, ?_⟩
      intro c member
      rcases List.mem_cons.mp member with rfl | inside
      · exact Bool.eq_false_iff.mpr other
      · exact others c inside
  | case5 reason later => cases taken

/-- The byte at which skipping stopped is still there when the token is read. -/
theorem takeToken_ne_nil {b : UInt8} (other : isSeparator b = false) {token : Bytes}
    (taken : takeToken (.byte b :: signals) = (.ok token, rest)) : token ≠ [] := by
  simp only [takeToken, other] at taken
  cases behind : (takeToken signals).1 with
  | error e => simp [behind, Except.map] at taken
  | ok later =>
    simp only [behind, Except.map, Bool.false_eq_true, if_false, Prod.mk.injEq, Except.ok.injEq] at taken
    rw [← taken.1]
    exact List.cons_ne_nil b later

theorem readToken_conserves {token : Bytes} (read : readToken signals = (.ok token, rest)) :
    ∃ blank : Bytes, (∀ b ∈ blank, isSeparator b) ∧ token ≠ [] ∧
      (∀ b ∈ token, isSeparator b = false) ∧
      signals.filterMap byte? = blank ++ token ++ rest.filterMap byte? := by
  obtain ⟨blank, separators, parts⟩ := skipSeparators_conserves signals
  cases skipped : skipSeparators signals with
  | mk result behind =>
    rw [skipped] at parts
    simp only [readToken, skipped] at read
    cases result with
    | error e => cases read
    | ok done =>
      obtain ⟨first, later, rfl, other⟩ := skipSeparators_stop skipped
      obtain ⟨tokenParts, others⟩ := takeToken_conserves read
      refine ⟨blank, separators, takeToken_ne_nil other read, others, ?_⟩
      rw [parts, List.append_assoc, tokenParts]

theorem discardLine_conserves (discarded : discardLine signals = (.ok (), rest)) :
    ∃ line : Bytes, Input.lineFeed ∉ line ∧
      signals.filterMap byte? = line ++ Input.lineFeed :: rest.filterMap byte? := by
  fun_induction discardLine signals with
  | case1 | case4 | case5 => cases discarded
  | case2 later =>
    cases discarded
    exact ⟨[], by simp, rfl⟩
  | case3 b later other ih =>
    obtain ⟨line, unbroken, parts⟩ := ih discarded
    refine ⟨b :: line, ?_, congrArg (b :: ·) parts⟩
    intro member
    rcases List.mem_cons.mp member with same | inside
    · exact other same.symm
    · exact unbroken inside

end Signal

namespace Input

variable {input rest : Input} {bytes token : Bytes}

/-- On any input: what a successful read of a token uses up. -/
theorem readToken_conserves (read : input.readToken = (.ok token, rest)) :
    ∃ blank : Bytes, (∀ b ∈ blank, isSeparator b) ∧ token ≠ [] ∧
      (∀ b ∈ token, isSeparator b = false) ∧ input.unread = blank ++ token ++ rest.unread := by
  have signals := readToken_signals input
  rw [read] at signals
  rw [unread_eq_filterMap, unread_eq_filterMap]
  exact Signal.readToken_conserves signals

theorem discardLine_conserves (discarded : input.discardLine = (.ok (), rest)) :
    ∃ line : Bytes, lineFeed ∉ line ∧ input.unread = line ++ lineFeed :: rest.unread := by
  have signals := discardLine_signals input
  rw [discarded] at signals
  rw [unread_eq_filterMap, unread_eq_filterMap]
  exact Signal.discardLine_conserves signals

theorem unread_readToken_lt (read : input.readToken = (.ok token, rest)) :
    rest.unread.length < input.unread.length := by
  obtain ⟨blank, _, some, _, parts⟩ := readToken_conserves read
  have length := List.length_pos_iff.mpr some
  rw [parts, List.length_append, List.length_append]
  omega

/-- Reads tokens up to the first failure, with that failure as the end. -/
def drain (input : Input) : List Bytes × RuntimeError × Input :=
  match read : input.readToken with
  | (.error e, rest) => ([], e, rest)
  | (.ok token, rest) =>
    have := unread_readToken_lt read
    let (tokens, ending) := drain rest
    (token :: tokens, ending)
  termination_by input.unread.length

def afterScans (input : Input) : List Scan → Input
  | [] => input
  | s :: later => (input.scan s).2.afterScans later

/-- The bytes that calls used up: those in front of the bytes that they left. -/
def consumed (input : Input) (calls : List Scan) : Bytes :=
  input.unread.take (input.unread.length - (input.afterScans calls).unread.length)

/-- The input delivers these bytes, in chunks and with interruptions of any kind, and then its end:
no look at it fails, and no byte stands behind an end. -/
def Streams (input : Input) (bytes : Bytes) : Prop :=
  ∃ ends, input.signals = bytes.map .byte ++ List.replicate ends .endOfInput

theorem Streams.unread (stream : input.Streams bytes) : input.unread = bytes := by
  obtain ⟨ends, signals⟩ := stream
  have endsOnly : (List.replicate ends Signal.endOfInput).filterMap Signal.byte? = [] := by
    simp [Signal.byte?]
  rw [unread_eq_filterMap, signals, List.filterMap_append, Signal.filterMap_byte?_bytes, endsOnly, List.append_nil]

/-- An end of input answers one look, and leaves the ends behind it. -/
theorem skipSeparators_ends (ends : Nat) :
    Signal.skipSeparators (List.replicate ends .endOfInput) =
      (.error .unexpectedEof, List.replicate (ends - 1) .endOfInput) := by
  cases ends <;> rfl

theorem takeToken_ends (ends : Nat) :
    Signal.takeToken (List.replicate ends .endOfInput) =
      (.ok [], List.replicate (ends - 1) .endOfInput) := by
  cases ends <;> rfl

theorem discardLine_ends (ends : Nat) :
    Signal.discardLine (List.replicate ends .endOfInput) =
      (.error .unexpectedEof, List.replicate (ends - 1) .endOfInput) := by
  cases ends <;> rfl

theorem readToken_of_blank (stream : input.Streams bytes)
    (blank : bytes.dropWhile isSeparator = []) :
    ∃ rest, input.readToken = (.error .unexpectedEof, rest) ∧ rest.Streams [] := by
  obtain ⟨ends, signals⟩ := stream
  have read := readToken_signals input
  rw [signals, Signal.readToken, Signal.skipSeparators_of_blank blank, skipSeparators_ends] at read
  obtain ⟨result, rest⟩ := Prod.mk.inj read
  exact ⟨input.readToken.2, Prod.ext result.symm rfl, ends - 1, rest.symm⟩

theorem readToken_of_stop (stream : input.Streams bytes) {b : UInt8} {behind : Bytes}
    (stop : bytes.dropWhile isSeparator = b :: behind) :
    ∃ rest, input.readToken = (.ok ((b :: behind).takeWhile (!isSeparator ·)), rest) ∧
      rest.Streams ((b :: behind).dropWhile (!isSeparator ·)) := by
  obtain ⟨ends, signals⟩ := stream
  have read := readToken_signals input
  rw [signals, Signal.readToken, Signal.skipSeparators_of_stop stop] at read
  cases closed : (b :: behind).dropWhile (!isSeparator ·) with
  | nil =>
    have whole : (b :: behind).takeWhile (!isSeparator ·) = b :: behind :=
      List.takeWhile_eq_self_iff.mpr (List.dropWhile_eq_nil_iff.mp closed)
    simp only [Signal.takeToken_of_open closed, takeToken_ends] at read
    obtain ⟨result, rest⟩ := Prod.mk.inj read
    rw [whole]
    refine ⟨input.readToken.2, Prod.ext ?_ rfl, ends - 1, rest.symm⟩
    rw [← result]
    simp [Except.map]
  | cons separator later =>
    simp only [Signal.takeToken_of_stop closed] at read
    obtain ⟨result, rest⟩ := Prod.mk.inj read
    exact ⟨input.readToken.2, Prod.ext result.symm rfl, ends, rest.symm⟩

theorem discardLine_of_open (stream : input.Streams bytes)
    (unended : bytes.dropWhile (· != lineFeed) = []) :
    ∃ rest, input.discardLine = (.error .unexpectedEof, rest) ∧ rest.Streams [] := by
  obtain ⟨ends, signals⟩ := stream
  have discarded := discardLine_signals input
  rw [signals, Signal.discardLine_of_open unended, discardLine_ends] at discarded
  obtain ⟨result, rest⟩ := Prod.mk.inj discarded
  exact ⟨input.discardLine.2, Prod.ext result.symm rfl, ends - 1, rest.symm⟩

theorem discardLine_of_stop (stream : input.Streams bytes) {b : UInt8} {behind : Bytes}
    (stop : bytes.dropWhile (· != lineFeed) = b :: behind) :
    ∃ rest, input.discardLine = (.ok (), rest) ∧ rest.Streams behind := by
  obtain ⟨ends, signals⟩ := stream
  have discarded := discardLine_signals input
  rw [signals, Signal.discardLine_of_stop stop] at discarded
  obtain ⟨result, rest⟩ := Prod.mk.inj discarded
  exact ⟨input.discardLine.2, Prod.ext result.symm rfl, ends, rest.symm⟩

/-- A read of a token finds separators only, or a token with an end of the stream or a separator
behind it, which stays. -/
theorem readToken_cases (stream : input.Streams bytes) :
    ((∀ b ∈ bytes, isSeparator b) ∧
      ∃ rest, input.readToken = (.error .unexpectedEof, rest) ∧ rest.Streams []) ∨
    ((¬ ∀ b ∈ bytes, isSeparator b) ∧
      ∃ token left rest, input.readToken = (.ok token, rest) ∧ rest.Streams left ∧
        left <:+ bytes ∧ ∀ b ∈ left.head?, isSeparator b) := by
  rw [← List.dropWhile_eq_nil_iff]
  cases dropped : bytes.dropWhile isSeparator with
  | nil => exact .inl ⟨rfl, readToken_of_blank stream dropped⟩
  | cons first behind =>
    obtain ⟨rest, read, streamed⟩ := readToken_of_stop stream dropped
    refine .inr ⟨List.cons_ne_nil first behind, _, _, rest, read, streamed, ?_, ?_⟩
    · apply (List.dropWhile_suffix _).trans
      rw [← dropped]
      exact List.dropWhile_suffix _
    · intro b member
      have stop := List.head?_dropWhile_not (!isSeparator ·) (first :: behind)
      rw [Option.mem_def.mp member] at stop
      simpa using stop

theorem dropWhile_lineFeed_eq_nil_iff :
    bytes.dropWhile (· != lineFeed) = [] ↔ lineFeed ∉ bytes := by
  rw [List.dropWhile_eq_nil_iff]
  constructor
  · intro others member
    simpa using others lineFeed member
  · intro missing b member
    have apart : b ≠ lineFeed := fun same => missing (same ▸ member)
    simpa using apart

theorem discardLine_cases (stream : input.Streams bytes) :
    (lineFeed ∉ bytes ∧
      ∃ rest, input.discardLine = (.error .unexpectedEof, rest) ∧ rest.Streams []) ∨
    (¬ lineFeed ∉ bytes ∧
      ∃ left rest, input.discardLine = (.ok (), rest) ∧ rest.Streams left ∧ left <:+ bytes) := by
  rw [← dropWhile_lineFeed_eq_nil_iff]
  cases dropped : bytes.dropWhile (· != lineFeed) with
  | nil => exact .inl ⟨rfl, discardLine_of_open stream dropped⟩
  | cons first behind =>
    obtain ⟨rest, discarded, streamed⟩ := discardLine_of_stop stream dropped
    refine .inr ⟨List.cons_ne_nil first behind, behind, rest, discarded, streamed, ?_⟩
    apply (List.suffix_cons first behind).trans
    rw [← dropped]
    exact List.dropWhile_suffix _

theorem readToken_eof_iff (stream : input.Streams bytes) :
    input.readToken.1 = .error .unexpectedEof ↔ ∀ b ∈ bytes, isSeparator b := by
  rcases readToken_cases stream with ⟨blank, rest, read, _⟩ | ⟨notBlank, token, left, rest, read, _⟩
  · exact iff_of_true (by rw [read]) blank
  · exact iff_of_false (by simp [read]) notBlank

theorem discardLine_eof_iff (stream : input.Streams bytes) :
    input.discardLine.1 = .error .unexpectedEof ↔ lineFeed ∉ bytes := by
  rcases discardLine_cases stream with ⟨missing, rest, discarded, _⟩ | ⟨present, left, rest, discarded, _⟩
  · exact iff_of_true (by rw [discarded]) missing
  · exact iff_of_false (by simp [discarded]) present

theorem readToken_delimited (stream : input.Streams bytes)
    (read : input.readToken = (.ok token, rest)) : ∀ b ∈ rest.unread.head?, isSeparator b := by
  rcases readToken_cases stream with
    ⟨_, other, failed, _⟩ | ⟨_, same, left, other, found, streamed, _, delimited⟩
  · rw [read] at failed
    cases failed
  · rw [read] at found
    cases found
    rw [streamed.unread]
    exact delimited

theorem readToken_of_error (stream : input.Streams bytes) {e : RuntimeError}
    (read : input.readToken = (.error e, rest)) : e = .unexpectedEof ∧ rest.Streams [] := by
  rcases readToken_cases stream with ⟨_, other, failed, streamed⟩ | ⟨_, token, left, other, found, _⟩
  · rw [read] at failed
    cases failed
    exact ⟨rfl, streamed⟩
  · rw [read] at found
    cases found

theorem discardLine_of_error (stream : input.Streams bytes) {e : RuntimeError}
    (discarded : input.discardLine = (.error e, rest)) :
    e = .unexpectedEof ∧ rest.Streams [] := by
  rcases discardLine_cases stream with ⟨_, other, failed, streamed⟩ | ⟨_, left, other, found, _⟩
  · rw [discarded] at failed
    cases failed
    exact ⟨rfl, streamed⟩
  · rw [discarded] at found
    cases found

/-- What a call leaves of a stream is a stream, of a suffix of the bytes. -/
theorem Streams.scan (stream : input.Streams bytes) (s : Scan) :
    ∃ left, (input.scan s).2.Streams left ∧ left <:+ bytes := by
  cases s with
  | token =>
    rcases readToken_cases stream with
      ⟨_, rest, read, streamed⟩ | ⟨_, token, left, rest, read, streamed, suffix, _⟩
    · exact ⟨[], by simpa only [Input.scan, read] using streamed, List.nil_suffix⟩
    · exact ⟨left, by simpa only [Input.scan, read] using streamed, suffix⟩
  | line =>
    rcases discardLine_cases stream with
      ⟨_, rest, discarded, streamed⟩ | ⟨_, left, rest, discarded, streamed, suffix⟩
    · exact ⟨[], by simpa only [Input.scan, discarded] using streamed, List.nil_suffix⟩
    · exact ⟨left, by simpa only [Input.scan, discarded] using streamed, suffix⟩

theorem Streams.afterScans (stream : input.Streams bytes) (calls : List Scan) :
    ∃ left, (input.afterScans calls).Streams left ∧ left <:+ bytes := by
  induction calls generalizing input bytes with
  | nil => exact ⟨bytes, stream, List.suffix_rfl⟩
  | cons s later ih =>
    obtain ⟨middle, streamed, first⟩ := stream.scan s
    obtain ⟨left, final, second⟩ := ih streamed
    exact ⟨left, final, second.trans first⟩

theorem consumed_append_unread (stream : input.Streams bytes) (calls : List Scan) :
    input.consumed calls ++ (input.afterScans calls).unread = bytes := by
  obtain ⟨left, streamed, front, rfl⟩ := stream.afterScans calls
  rw [consumed, stream.unread, streamed.unread, List.length_append, Nat.add_sub_cancel,
    List.take_left]

/-- The maximal runs of bytes that are no separators. -/
def words (bytes : Bytes) : List Bytes := (bytes.splitOnP isSeparator).filter (· ≠ [])

theorem words_of_blank (blank : ∀ b ∈ bytes, isSeparator b) : words bytes = [] := by
  induction bytes with
  | nil => simp [words]
  | cons b rest ih =>
    have tail := ih fun c member => blank c (List.mem_cons_of_mem b member)
    have split := List.splitOnP_append_cons [] rest (blank b List.mem_cons_self)
    rw [List.nil_append, List.splitOnP_nil] at split
    rw [words, split, List.filter_append]
    exact tail

theorem words_of_token {blank behind : Bytes} (separators : ∀ b ∈ blank, isSeparator b)
    (some : token ≠ []) (others : ∀ b ∈ token, isSeparator b = false)
    (delimited : ∀ b ∈ behind.head?, isSeparator b) :
    words (blank ++ token ++ behind) = token :: words behind := by
  induction blank with
  | nil =>
    have alone : (token.splitOnP isSeparator).filter (· ≠ []) = [token] := by
      rw [List.splitOnP_eq_singleton others]
      simp [some]
    cases behind with
    | nil =>
      rw [List.nil_append, List.append_nil, words, alone]
      rfl
    | cons b later =>
      have separator := delimited b rfl
      have leading := List.splitOnP_append_cons [] later separator
      rw [List.nil_append, List.splitOnP_nil] at leading
      rw [List.nil_append, words, List.splitOnP_append_cons token later separator,
        List.filter_append, alone, words, leading, List.filter_append]
      rfl
  | cons b blank ih =>
    have tail := ih fun c member => separators c (List.mem_cons_of_mem b member)
    have split := List.splitOnP_append_cons [] (blank ++ token ++ behind)
      (separators b List.mem_cons_self)
    rw [List.nil_append, List.splitOnP_nil] at split
    rw [List.cons_append, List.cons_append, words, split, List.filter_append]
    exact tail

theorem drain_eq_words (stream : input.Streams bytes) :
    ∃ rest, input.drain = (words bytes, .unexpectedEof, rest) ∧ rest.unread = [] := by
  fun_induction drain input generalizing bytes with
  | case1 input e rest read =>
    obtain ⟨rfl, streamed⟩ := readToken_of_error stream read
    have blank := (readToken_eof_iff stream).mp (by rw [read])
    exact ⟨rest, by rw [words_of_blank blank], streamed.unread⟩
  | case2 input token rest read shorter tokens ending drained ih =>
    obtain ⟨left, streamed, _⟩ := stream.scan .token
    simp only [scan, read] at streamed
    obtain ⟨blank, separators, some, others, parts⟩ := readToken_conserves read
    have delimited := readToken_delimited stream read
    obtain ⟨final, all, nothing⟩ := ih streamed
    rw [drained, Prod.mk.injEq] at all
    obtain ⟨rfl, rfl⟩ := all
    rw [stream.unread, streamed.unread] at parts
    rw [streamed.unread] at delimited
    exact ⟨final, by rw [parts, words_of_token separators some others delimited], nothing⟩

theorem isSeparator_iff (b : UInt8) :
    isSeparator b ↔ b ∈ [0x20, 0x09, 0x0A, 0x0B, 0x0C, 0x0D] := by
  simp only [isSeparator, Bool.or_eq_true, beq_iff_eq, Bool.and_eq_true, decide_eq_true_eq,
    List.mem_cons, List.not_mem_nil, or_false, UInt8.le_iff_toNat_le, ← UInt8.toNat_inj,
    UInt8.reduceToNat]
  omega

/-- A stream of bytes under reads of tokens and lines, in any order. Tokens alone are its words. Behind
any reads the bytes used up and those left make the stream; the next token uses up the separators
in front of it and itself, and the next line all up to the first line feed; and each of the two is
missing only where no byte but separators, or no line feed, is left, and then nothing stays. -/
theorem scans_take_stream_apart (stream : input.Streams bytes) :
    (∀ b, isSeparator b ↔ b ∈ [0x20, 0x09, 0x0A, 0x0B, 0x0C, 0x0D]) ∧
    (∃ rest, input.drain = (words bytes, .unexpectedEof, rest) ∧ rest.unread = []) ∧
    ∀ calls : List Scan,
      let now := input.afterScans calls
      input.consumed calls ++ now.unread = bytes ∧
      (∀ token rest, now.readToken = (.ok token, rest) →
        token ≠ [] ∧ (∀ b ∈ token, isSeparator b = false) ∧
        (∀ b ∈ rest.unread.head?, isSeparator b) ∧
        ∃ blank, (∀ b ∈ blank, isSeparator b) ∧ now.unread = blank ++ token ++ rest.unread) ∧
      (∀ rest, now.discardLine = (.ok (), rest) →
        ∃ line, lineFeed ∉ line ∧ now.unread = line ++ [lineFeed] ++ rest.unread) ∧
      (∀ e rest, now.readToken = (.error e, rest) → e = .unexpectedEof ∧ rest.unread = []) ∧
      (∀ e rest, now.discardLine = (.error e, rest) → e = .unexpectedEof ∧ rest.unread = []) ∧
      (now.readToken.1 = .error .unexpectedEof ↔ ∀ b ∈ now.unread, isSeparator b) ∧
      (now.discardLine.1 = .error .unexpectedEof ↔ lineFeed ∉ now.unread) := by
  refine ⟨isSeparator_iff, drain_eq_words stream, ?_⟩
  intro calls now
  obtain ⟨left, streamed, _⟩ : ∃ left, now.Streams left ∧ left <:+ bytes := stream.afterScans calls
  refine ⟨consumed_append_unread stream calls, ?_, ?_, ?_, ?_, ?_, ?_⟩
  · intro token rest read
    obtain ⟨blank, separators, some, others, parts⟩ := readToken_conserves read
    exact ⟨some, others, readToken_delimited streamed read, blank, separators, parts⟩
  · intro rest discarded
    obtain ⟨line, unbroken, parts⟩ := discardLine_conserves discarded
    exact ⟨line, unbroken, by rw [parts, List.append_assoc]; rfl⟩
  · intro e rest read
    obtain ⟨cause, nothing⟩ := readToken_of_error streamed read
    exact ⟨cause, nothing.unread⟩
  · intro e rest discarded
    obtain ⟨cause, nothing⟩ := discardLine_of_error streamed discarded
    exact ⟨cause, nothing.unread⟩
  · rw [streamed.unread]
    exact readToken_eof_iff streamed
  · rw [streamed.unread]
    exact discardLine_eof_iff streamed

theorem scans_take_stream_apart_once :
    let input : Input := [.data [0x20, 0x61], .interrupted, .data [0x00, 0xFF, 0x0A], .data [],
      .data [0x0A, 0x62], .endOfInput]
    let bytes : Bytes := [0x20, 0x61, 0x00, 0xFF, 0x0A, 0x0A, 0x62]
    input.Streams bytes ∧
      (∃ rest, input.drain = ([[0x61, 0x00, 0xFF], [0x62]], .unexpectedEof, rest) ∧ rest.unread = []) ∧
      input.consumed [.token, .line] ++ [0x0A, 0x62] = bytes := by
  intro input bytes
  have stream : input.Streams bytes := ⟨1, rfl⟩
  obtain ⟨_, drained, behind⟩ := scans_take_stream_apart stream
  exact ⟨stream, drained, (behind [.token, .line]).1⟩

end Input
end ScriptHost
