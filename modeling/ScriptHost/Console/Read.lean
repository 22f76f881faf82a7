import ScriptHost.Console.Input
import ScriptHost.Console.Output
import ScriptHost.Console.Token

/-! Reading a value of a wanted type: the program is prompted until a token fits the type. -/
namespace ScriptHost

open Utf8 (Bytes)

namespace TypeTag

/-- What follows a prompt to name the expected type. -/
def promptSuffix : TypeTag → Outcome String
  | .int => .ok " (expecting int): "
  | .float => .ok " (expecting float): "
  | .string => .ok " (expecting string): "
  | .bool => .ok " (expecting bool): "
  | tag => .error (.unknownTag tag.letter)

def defaultPrompt : TypeTag → Outcome String
  | .int | .float => .ok "Enter a number"
  | .bool => .ok "Enter 0 or 1"
  | .string => .ok "Enter a string"
  | tag => .error (.unknownTag tag.letter)

end TypeTag

def invalidInputNotice : Bytes := Utf8.ofString "Invalid input. Please try again.\n"

structure Reading where
  result : Outcome Value
  heap : Heap
  input : Input
  output : Output
  /-- The tokens that did not fit, in order. -/
  rejected : List Bytes

/-- Prompts and reads until a token fits. A token that does not fit is dropped with the rest of
its line, which uses up input. -/
def askUntilValid (heap : Heap) (input : Input) (output : Output) (prompt suffix : Bytes)
    (tag : TypeTag) : Reading :=
  match output.writeAndFlush [prompt, suffix] with
  | (.error e, output) => ⟨.error e, heap, input, output, []⟩
  | (.ok (), output) =>
    match read : input.readToken with
    | (.error e, input) => ⟨.error e, heap, input, output, []⟩
    | (.ok token, behind) =>
      match parseToken heap tag token with
      | (.error e, heap) => ⟨.error e, heap, behind, output, []⟩
      | (.ok (some value), heap) => ⟨.ok value, heap, behind, output, []⟩
      | (.ok none, heap) =>
        match discarded : behind.discardLine with
        | (.error e, input) => ⟨.error e, heap, input, output, [token]⟩
        | (.ok (), next) =>
          match output.write invalidInputNotice with
          | (.error e, output) => ⟨.error e, heap, next, output, [token]⟩
          | (.ok (), output) =>
            have := Input.unread_after_line_lt read discarded
            let later := askUntilValid heap next output prompt suffix tag
            { later with rejected := token :: later.rejected }
  termination_by input.unread.length

/-- One round of asking. -/
theorem askUntilValid_eq (heap : Heap) (input : Input) (output : Output) (prompt suffix : Bytes)
    (tag : TypeTag) :
    askUntilValid heap input output prompt suffix tag =
      match output.writeAndFlush [prompt, suffix] with
      | (.error e, output) => ⟨.error e, heap, input, output, []⟩
      | (.ok (), output) =>
        match input.readToken with
        | (.error e, input) => ⟨.error e, heap, input, output, []⟩
        | (.ok token, behind) =>
          match parseToken heap tag token with
          | (.error e, heap) => ⟨.error e, heap, behind, output, []⟩
          | (.ok (some value), heap) => ⟨.ok value, heap, behind, output, []⟩
          | (.ok none, heap) =>
            match behind.discardLine with
            | (.error e, input) => ⟨.error e, heap, input, output, [token]⟩
            | (.ok (), next) =>
              match output.write invalidInputNotice with
              | (.error e, output) => ⟨.error e, heap, next, output, [token]⟩
              | (.ok (), output) =>
                let later := askUntilValid heap next output prompt suffix tag
                { later with rejected := token :: later.rejected } := by
  fun_cases askUntilValid heap input output prompt suffix tag with
  | case7 => simp only [*]; rfl
  | _ => simp only [*]

def readTyped (heap : Heap) (input : Input) (output : Output) (prompt : Bytes) (tag : TypeTag) :
    Reading :=
  match tag.promptSuffix with
  | .error e => ⟨.error e, heap, input, output, []⟩
  | .ok suffix => askUntilValid heap input output prompt (Utf8.ofString suffix) tag

variable {heap next : Heap} {input rest : Input} {output out : Output} {prompt token : Bytes}
  {tag : TypeTag} {suffix : String}

/-- A token that fits ends the read. -/
theorem readTyped_of_fit {value : Value} (known : tag.promptSuffix = .ok suffix)
    (written : output.writeAndFlush [prompt, Utf8.ofString suffix] = (.ok (), out))
    (read : input.readToken = (.ok token, rest))
    (parsed : parseToken heap tag token = (.ok (some value), next)) :
    readTyped heap input output prompt tag = ⟨.ok value, next, rest, out, []⟩ := by
  simp only [readTyped, known]
  rw [askUntilValid_eq]
  simp only [written, read, parsed]

theorem readTyped_of_refused {e : RuntimeError} (known : tag.promptSuffix = .ok suffix)
    (written : output.writeAndFlush [prompt, Utf8.ofString suffix] = (.ok (), out))
    (read : input.readToken = (.ok token, rest))
    (refused : parseToken heap tag token = (.error e, next)) :
    readTyped heap input output prompt tag = ⟨.error e, next, rest, out, []⟩ := by
  simp only [readTyped, known]
  rw [askUntilValid_eq]
  simp only [written, read, refused]

end ScriptHost
