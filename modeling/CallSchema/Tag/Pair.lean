import CallSchema.Tag.Literal

/-!
Struct tags as sequences of `key:"body"` pairs with any number of spaces around them.

* `closing` finds the quote that ends a body: the first one that no backslash takes away.
* `pair` reads one pair and always consumes something (`length_lt_of_pair`).
* `pairs` reads all of them; the first malformed pair decides the error.
-/

namespace CallSchema.Tag

/-- Why a tag is malformed. -/
inductive TagError where
  /-- The literal is no string literal, or its escapes are wrong. -/
  | literal (text : String)
  /-- A pair begins with a character that no key may hold. -/
  | keySyntax
  /-- No colon follows a key. -/
  | pairSyntax
  /-- No quoted body with correct escapes follows a colon. -/
  | valueSyntax
  /-- The allowed values hold an empty one. -/
  | emptyEnumValue
  /-- The allowed values hold one twice. -/
  | duplicateEnumValue (value : String)
deriving Repr, DecidableEq

/-- The text of the error. -/
def TagError.message : TagError → String
  | literal text => "tag is not a string literal: " ++ text
  | keySyntax => "bad syntax for struct tag key"
  | pairSyntax => "bad syntax for struct tag pair"
  | valueSyntax => "bad syntax for struct tag value"
  | emptyEnumValue => "enum tag contains an empty value"
  | duplicateEnumValue value => "enum tag repeats value '" ++ value ++ "'"

/-- A key with the value that its body stands for. -/
structure Pair where
  key : String
  value : String
deriving Repr, DecidableEq

/-- The characters of a key: no control character, no space, no colon and no double quote. -/
def isKeyChar (c : Char) : Bool := ' ' < c && c != ':' && c != '"' && c != '\x7f'

/-- The body up to the quote that closes it, and the text after that quote. A backslash takes the
    character after it along, so that a quote there does not close the body. -/
def closing : List Char → Option (List Char × List Char)
  | [] => none
  | [c] => if c = '"' then some ([], []) else none
  | c :: d :: rest =>
    if c = '"' then some ([], d :: rest)
    else if c = '\\' then (closing rest).map fun (body, after) => (c :: d :: body, after)
    else (closing (d :: rest)).map fun (body, after) => (c :: body, after)

/-- The first pair of a text, and the text after its closing quote. -/
def pair (s : List Char) : Except TagError (Pair × List Char) :=
  let key := s.takeWhile isKeyChar
  if key.isEmpty then .error .keySyntax
  else
    match s.dropWhile isKeyChar with
    | ':' :: '"' :: rest =>
      match closing rest with
      | none => .error .valueSyntax
      | some (body, after) =>
        match unescape body with
        | none => .error .valueSyntax
        | some value => .ok (⟨String.ofList key, value⟩, after)
    | ':' :: _ => .error .valueSyntax
    | _ => .error .pairSyntax

theorem closing_split {s body after : List Char} (h : closing s = some (body, after)) :
    s = body ++ '"' :: after := by
  fun_induction closing s generalizing body after with
  | case1 => simp at h
  | case2 => simp_all
  | case3 => simp at h
  | case4 => simp_all
  | case5 _ _ _ ih =>
    simp only [Option.map_eq_some_iff, Prod.exists, Prod.mk.injEq] at h
    obtain ⟨b, a, hb, rfl, rfl⟩ := h
    simp [ih hb]
  | case6 _ _ _ _ _ ih =>
    simp only [Option.map_eq_some_iff, Prod.exists, Prod.mk.injEq] at h
    obtain ⟨b, a, hb, rfl, rfl⟩ := h
    simp [ih hb]

/-- Reading a pair consumes at least one character. -/
theorem length_lt_of_pair {s after : List Char} {p : Pair} (h : pair s = .ok (p, after)) :
    after.length < s.length := by
  have hs : s = s.takeWhile isKeyChar ++ s.dropWhile isKeyChar := by simp
  simp only [pair] at h
  split at h
  · simp at h
  · split at h
    · rename_i rest hrest
      split at h
      · simp at h
      · rename_i body a hc
        split at h
        · simp at h
        · simp only [Except.ok.injEq, Prod.mk.injEq] at h
          obtain ⟨-, rfl⟩ := h
          have := closing_split hc
          rw [hs, hrest, this]
          simp only [List.length_append, List.length_cons]
          omega
    · simp at h
    · simp at h

/-- All pairs of a text in order. -/
def pairs (s : List Char) : Except TagError (List Pair) :=
  match _hs : s.dropWhile (· == ' ') with
  | [] => .ok []
  | c :: rest =>
    match _hp : pair (c :: rest) with
    | .error e => .error e
    | .ok (p, after) => (pairs after).map (p :: ·)
termination_by s.length
decreasing_by
  have h := length_lt_of_pair _hp
  have hs : s = s.takeWhile (· == ' ') ++ s.dropWhile (· == ' ') := by simp
  have := congrArg List.length hs
  rw [_hs, List.length_append] at this
  omega

end CallSchema.Tag
