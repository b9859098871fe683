import HookWeave.Token

/-!
# References and tokens

Encoded code names methods, fields, types and strings by tokens. A `TokenResolver` turns tokens
into what they name when code is read, a `TokenAllocator` does the reverse when it is written.
-/

namespace HookWeave

/-- What tokens name. -/
structure TokenResolver where
  method : Token → Except Fault MethodRef
  field : Token → Except Fault FieldRef
  type : Token → Except Fault TypeSig
  string : Token → Except Fault String

/-- Which tokens stand for what is named. Asking may change the state `σ` of the tables behind it.
-/
structure TokenAllocator (σ : Type) where
  method : MethodRef → StateT σ (Except Fault) Token
  field : FieldRef → StateT σ (Except Fault) Token
  type : TypeSig → StateT σ (Except Fault) Token
  string : String → StateT σ (Except Fault) Token

/-! ## A finite dictionary -/

/-- What one token names, for each use that it may be put to. -/
structure TokenEntry where
  token : Token
  method? : Option MethodRef
  field? : Option FieldRef
  type? : Option TypeSig
  string? : Option String

/-- The entries of a dictionary as a resolver; any other token is unknown. -/
def TokenResolver.ofEntries (entries : List TokenEntry) : TokenResolver :=
  let look {α : Type} (use : TokenUse) (part : TokenEntry → Option α) (t : Token) :
      Except Fault α :=
    match (entries.find? (·.token = t)).bind part with
    | some a => .ok a
    | none => .error (.malformed (.tokenUnknown t.value use))
  ⟨look .method (·.method?), look .field (·.field?), look .type (·.type?), look .string (·.string?)⟩

/-! ## A row for every request -/

/-- The requests answered so far, the latest first, each with its token and what it asked for in
words, and the row for the next. -/
structure RequestLog where
  next : Nat
  answered : List (Token × String)

/-- Answers every request with a row of its own. -/
def TokenAllocator.sequential : TokenAllocator RequestLog :=
  let answer (table : UInt8) (text : String) : StateT RequestLog (Except Fault) Token :=
    fun log => do
      let token ← Token.ofParts table log.next
      return (token, ⟨log.next + 1, (token, text) :: log.answered⟩)
  ⟨fun m => answer Token.memberTable m.render, fun f => answer Token.memberTable f.render,
    fun t => answer Token.typeTable t.render, fun s => answer Token.stringTable s⟩

end HookWeave
