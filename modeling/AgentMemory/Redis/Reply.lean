import AgentMemory.Lib.JsonRead

/-!
# RESP replies

`readReply` of `internal/adapters/storage/redis/client.go` on the bytes that are there to
read, a byte being the character with its code, and the replies a server may send. Reading
stops with an error where the bytes run out. `readReply_encode` says that a reply is read to
its end and no further, and `readReply_append` that a reply that has been read does not
depend on what follows it.
-/

namespace AgentMemory.Redis

open JsonText PyText

/-- `Value` (`client.go:19-25`). -/
inductive Value where
  | mk (kind : Char) (str : List Char) (int : Int) (null : Bool) (array : List Value)

/-- How `readReply` ends: with a value, with the error the server replied, or with a
transport error. -/
inductive ReadResult where
  | ok (value : Value)
  | redisError (value : Value)
  | fail

/-- A value without parts. -/
def Value.line (kind : Char) (str : List Char) : Value := .mk kind str 0 false []

/-- `:` with its number. -/
def Value.number (n : Int) : Value := .mk ':' [] n false []

/-- A missing bulk string or array. -/
def Value.missing (kind : Char) : Value := .mk kind [] 0 true []

def notNewline (c : Char) : Bool := c ≠ '\n'

/-- `strings.TrimRight(line, "\r\n")`. -/
def trimLineEnd (line : List Char) : List Char := line.rdropWhile fun c => c = '\r' || c = '\n'

/-- `readLine` (`client.go:186-192`). Without a newline everything is consumed. -/
def readLine (input : List Char) : Option (List Char) × List Char :=
  match input.dropWhile notNewline with
  | [] => (none, [])
  | _ :: rest => (some (trimLineEnd (input.takeWhile notNewline)), rest)

/-- The number after a sign. -/
def signedDigits : List Char → List Char
  | '-' :: digits => digits
  | '+' :: digits => digits
  | digits => digits

/-- `strconv.ParseInt` in base 10 and 64 bits, and `strconv.Atoi`. -/
def parseInt (text : List Char) : Option Int :=
  let digits := signedDigits text
  let n := if text.head? = some '-' then JsonText.intOf text else JsonText.intOf digits
  if digits ≠ [] ∧ digits.all Char.isDigit ∧ -2 ^ 63 ≤ n ∧ n < 2 ^ 63 then some n else none

mutual
/-- `readReply` (`client.go:131-184`) on replies that nest at most so deep. -/
def readReply : Nat → List Char → ReadResult × List Char
  | 0, input => (.fail, input)
  | depth + 1, input =>
    match readLine input with
    | (none, rest) => (.fail, rest)
    | (some [], rest) => (.fail, rest)
    | (some (kind :: text), rest) =>
      if kind = '+' then (.ok (.line kind text), rest)
      else if kind = '-' then (.redisError (.line kind text), rest)
      else if kind = ':' then
        match parseInt text with
        | some n => (.ok (.number n), rest)
        | none => (.fail, rest)
      else if kind = '$' then
        match parseInt text with
        | some size =>
          if size < 0 then (.ok (.missing kind), rest)
          else if size.toNat + 2 ≤ rest.length then
            (.ok (.line kind (rest.take size.toNat)), rest.drop (size.toNat + 2))
          else (.fail, [])
        | none => (.fail, rest)
      else if kind = '*' then
        match parseInt text with
        | some count =>
          if count < 0 then (.ok (.missing kind), rest)
          else
            match readItems depth count.toNat rest with
            | (some items, rest) => (.ok (.mk kind [] 0 false items), rest)
            | (none, rest) => (.fail, rest)
        | none => (.fail, rest)
      else (.fail, rest)
/-- The loop over the items of an array. -/
def readItems : Nat → Nat → List Char → Option (List Value) × List Char
  | _, 0, input => (some [], input)
  | depth, count + 1, input =>
    match readReply depth input with
    | (.ok item, rest) | (.redisError item, rest) =>
      match readItems depth count rest with
      | (some items, rest) => (some (item :: items), rest)
      | (none, rest) => (none, rest)
    | (.fail, rest) => (none, rest)
end

/-! ## What a server sends -/

/-- A reply in RESP2. -/
inductive Reply where
  | simple (text : List Char)
  | error (text : List Char)
  | integer (n : Int)
  | bulk (text : List Char)
  | nullBulk
  | array (items : List Reply)
  | nullArray

/-- A line of a reply. -/
def replyLine (kind : Char) (text : List Char) : List Char := kind :: text ++ ['\r', '\n']

namespace Reply

mutual
/-- The bytes of a reply. -/
def encode : Reply → List Char
  | .simple text => replyLine '+' text
  | .error text => replyLine '-' text
  | .integer n => replyLine ':' (decimal n)
  | .bulk text => replyLine '$' (decimal text.length) ++ text ++ ['\r', '\n']
  | .nullBulk => replyLine '$' (decimal (-1))
  | .array items => replyLine '*' (decimal items.length) ++ encodeItems items
  | .nullArray => replyLine '*' (decimal (-1))
def encodeItems : List Reply → List Char
  | [] => []
  | r :: items => encode r ++ encodeItems items
end

mutual
/-- The value of a reply. -/
def value : Reply → Value
  | .simple text => .line '+' text
  | .error text => .line '-' text
  | .integer n => .number n
  | .bulk text => .line '$' text
  | .nullBulk => .missing '$'
  | .array items => .mk '*' [] 0 false (valueItems items)
  | .nullArray => .missing '*'
def valueItems : List Reply → List Value
  | [] => []
  | r :: items => value r :: valueItems items
end

/-- What reading a reply returns. -/
def outcome (r : Reply) : ReadResult :=
  match r with
  | .error _ => .redisError r.value
  | _ => .ok r.value

mutual
/-- Lines hold no line break, and numbers and lengths fit 64 bits. -/
def WellFormed : Reply → Prop
  | .simple text | .error text => '\r' ∉ text ∧ '\n' ∉ text
  | .integer n => -2 ^ 63 ≤ n ∧ n < 2 ^ 63
  | .bulk text => text.length < 2 ^ 63
  | .array items => items.length < 2 ^ 63 ∧ WellFormedItems items
  | .nullBulk | .nullArray => True
def WellFormedItems : List Reply → Prop
  | [] => True
  | r :: items => WellFormed r ∧ WellFormedItems items
end

mutual
/-- How deep the arrays of a reply nest. -/
def nesting : Reply → Nat
  | .array items => nestingItems items + 1
  | _ => 1
def nestingItems : List Reply → Nat
  | [] => 0
  | r :: items => max (nesting r) (nestingItems items)
end

end Reply

/-! ## Reading -/

/-- A character that ends no line. -/
abbrev Inline (c : Char) : Prop := c ≠ '\r' ∧ c ≠ '\n'

theorem trimLineEnd_line {line : List Char} (h : ∀ c ∈ line, Inline c) :
    trimLineEnd (line ++ ['\r']) = line := by
  have hself : trimLineEnd line = line := by
    refine List.rdropWhile_eq_self_iff.mpr fun hne => ?_
    have hlast := h _ (List.getLast_mem hne)
    simp [hlast.1, hlast.2]
  rw [trimLineEnd, List.rdropWhile_concat_pos _ _ _ (by decide)]
  exact hself

theorem readLine_line {line : List Char} (h : ∀ c ∈ line, Inline c) (rest : List Char) :
    readLine (line ++ ['\r', '\n'] ++ rest) = (some line, rest) := by
  have hbefore : ∀ c ∈ line ++ ['\r'], notNewline c = true := by
    intro c hc
    rcases List.mem_append.mp hc with hc | hc
    · simpa [notNewline] using (h c hc).2
    · rw [List.mem_singleton.mp hc]
      decide
  have hend : notNewline '\n' = false := by decide
  have hsplit : line ++ ['\r', '\n'] ++ rest = (line ++ ['\r']) ++ '\n' :: rest := by simp
  rw [readLine, hsplit, List.dropWhile_append_of_pos hbefore, List.takeWhile_append_of_pos hbefore,
    List.dropWhile_cons_of_neg (by simp [hend]), List.takeWhile_cons_of_neg (by simp [hend]),
    List.append_nil, trimLineEnd_line h]

theorem readLine_append {input line rest : List Char} (h : readLine input = (some line, rest))
    (more : List Char) : readLine (input ++ more) = (some line, rest ++ more) := by
  unfold readLine at h
  split at h
  · exact absurd h nofun
  · next c tail hdrop =>
    obtain ⟨hline, rfl⟩ := Prod.mk.inj h
    have hlength : (input.takeWhile notNewline).length ≠ input.length := by
      have hboth := congrArg List.length (List.takeWhile_append_dropWhile (p := notNewline) (l := input))
      simp only [List.length_append, hdrop, List.length_cons] at hboth
      omega
    rw [readLine, List.dropWhile_append, List.takeWhile_append, hdrop, if_neg hlength]
    simpa using hline

theorem inline_decimal {n : Int} {c : Char} (h : c ∈ decimal n) : Inline c := by
  have hword := isWordChar_decimal h
  constructor
  · rintro rfl
    exact absurd hword (by decide)
  · rintro rfl
    exact absurd hword (by decide)

theorem signedDigits_toDigits (m : Nat) : signedDigits (Nat.toDigits 10 m) = Nat.toDigits 10 m := by
  have hsign : ∀ c ∈ Nat.toDigits 10 m, c ≠ '-' ∧ c ≠ '+' := by
    intro c hc
    have hdigit := isDigit_toDigits hc
    constructor
    · rintro rfl
      exact absurd hdigit (by decide)
    · rintro rfl
      exact absurd hdigit (by decide)
  unfold signedDigits
  split
  · next h => exact absurd rfl (hsign '-' (by rw [h]; exact List.mem_cons_self)).1
  · next h => exact absurd rfl (hsign '+' (by rw [h]; exact List.mem_cons_self)).2
  · rfl

theorem parseInt_decimal {n : Int} (hle : -2 ^ 63 ≤ n) (hlt : n < 2 ^ 63) :
    parseInt (decimal n) = some n := by
  have hdigits : ∀ m : Nat, (Nat.toDigits 10 m).all Char.isDigit = true :=
    fun m => List.all_eq_true.mpr fun _ hc => isDigit_toDigits hc
  have hvalue := intOf_decimal n
  cases n with
  | ofNat m =>
    have hhead : (Nat.toDigits 10 m).head? ≠ some '-' := by
      intro h
      obtain ⟨rest, hrest⟩ := List.head?_eq_some_iff.mp h
      exact toDigits_ne_minus m rest hrest
    rw [decimal] at hvalue ⊢
    simp only [parseInt, signedDigits_toDigits, if_neg hhead, hvalue]
    exact if_pos ⟨Nat.toDigits_ne_nil, hdigits m, hle, hlt⟩
  | negSucc m =>
    rw [decimal] at hvalue ⊢
    simp only [parseInt, signedDigits, List.head?_cons, if_true, hvalue]
    exact if_pos ⟨Nat.toDigits_ne_nil, hdigits (m + 1), hle, hlt⟩

theorem readLine_replyLine {kind : Char} {text : List Char} (hkind : Inline kind)
    (h : ∀ c ∈ text, Inline c) (rest : List Char) :
    readLine (replyLine kind text ++ rest) = (some (kind :: text), rest) :=
  readLine_line (List.forall_mem_cons.mpr ⟨hkind, h⟩) rest

theorem inline_of_not_mem {text : List Char} (h : '\r' ∉ text ∧ '\n' ∉ text) :
    ∀ c ∈ text, Inline c := fun _ hc => ⟨fun e => h.1 (e ▸ hc), fun e => h.2 (e ▸ hc)⟩

theorem length_replyLine (kind : Char) (text : List Char) :
    (replyLine kind text).length = text.length + 3 := by simp [replyLine]

theorem parseInt_length {n : Nat} (h : n < 2 ^ 63) : parseInt (decimal n) = some (n : Int) :=
  parseInt_decimal (by omega) (by omega)

theorem parseInt_minus_one : parseInt (decimal (-1)) = some (-1) :=
  parseInt_decimal (by decide) (by decide)

theorem Reply.outcome_eq (r : Reply) :
    r.outcome = .ok r.value ∨ r.outcome = .redisError r.value := by
  cases r <;> simp [outcome]

open Reply in
mutual
/-- A reply is read to its end by a reader that nests as deep as it does. -/
theorem readReply_encode_of_nesting : ∀ (r : Reply) (depth : Nat) (rest : List Char), r.WellFormed →
    r.nesting ≤ depth → readReply depth (encode r ++ rest) = (r.outcome, rest)
  | .simple text, 0, rest, h, hdepth | .error text, 0, rest, h, hdepth
  | .integer n, 0, rest, h, hdepth | .bulk text, 0, rest, h, hdepth
  | .nullBulk, 0, rest, h, hdepth | .array items, 0, rest, h, hdepth
  | .nullArray, 0, rest, h, hdepth => by simp [nesting] at hdepth
  | .simple text, depth + 1, rest, h, hdepth => by
    rw [encode, readReply, readLine_replyLine (by decide) (inline_of_not_mem h)]
    rfl
  | .error text, depth + 1, rest, h, hdepth => by
    rw [encode, readReply, readLine_replyLine (by decide) (inline_of_not_mem h)]
    rfl
  | .integer n, depth + 1, rest, h, hdepth => by
    rw [encode, readReply, readLine_replyLine (by decide) fun _ => inline_decimal]
    simp [parseInt_decimal h.1 h.2, outcome, value]
  | .bulk text, depth + 1, rest, h, hdepth => by
    rw [encode, readReply, List.append_assoc, List.append_assoc,
      readLine_replyLine (by decide) fun _ => inline_decimal]
    have hneg : ¬ ((text.length : Int) < 0) := by omega
    simp [parseInt_length h, hneg, outcome, value]
  | .nullBulk, depth + 1, rest, h, hdepth => by
    rw [encode, readReply, readLine_replyLine (by decide) fun _ => inline_decimal]
    simp [parseInt_minus_one, outcome, value]
  | .nullArray, depth + 1, rest, h, hdepth => by
    rw [encode, readReply, readLine_replyLine (by decide) fun _ => inline_decimal]
    simp [parseInt_minus_one, outcome, value]
  | .array items, depth + 1, rest, h, hdepth => by
    have hneg : ¬ ((items.length : Int) < 0) := by omega
    have hitems : nestingItems items ≤ depth := by
      rw [nesting] at hdepth
      omega
    rw [encode, readReply, List.append_assoc,
      readLine_replyLine (by decide) fun _ => inline_decimal]
    simp [parseInt_length h.1, hneg, readItems_encode_of_nesting items depth rest h.2 hitems, outcome,
      value]
theorem readItems_encode_of_nesting : ∀ (items : List Reply) (depth : Nat) (rest : List Char),
    WellFormedItems items → nestingItems items ≤ depth →
      readItems depth items.length (encodeItems items ++ rest) = (some (valueItems items), rest)
  | [], depth, rest, _, _ => by simp [encodeItems, readItems, valueItems]
  | r :: items, depth, rest, h, hdepth => by
    rw [nestingItems] at hdepth
    rw [encodeItems, List.append_assoc, List.length_cons, readItems,
      readReply_encode_of_nesting r depth _ h.1 (by omega)]
    have hrest := readItems_encode_of_nesting items depth rest h.2 (by omega)
    rcases outcome_eq r with hr | hr <;> simp [hr, hrest, valueItems]
end

open Reply in
mutual
theorem nesting_le_length : ∀ r : Reply, r.nesting ≤ (encode r).length
  | .simple _ | .error _ | .integer _ | .bulk _ | .nullBulk | .nullArray => by
    simp only [nesting, encode, List.length_append, length_replyLine]
    omega
  | .array items => by
    have hitems := nestingItems_le_length items
    simp only [nesting, encode, List.length_append, length_replyLine]
    omega
theorem nestingItems_le_length : ∀ items : List Reply,
    nestingItems items ≤ (encodeItems items).length
  | [] => Nat.zero_le _
  | r :: items => by
    have hr := nesting_le_length r
    have hitems := nestingItems_le_length items
    rw [nestingItems, encodeItems, List.length_append]
    omega
end

/-- A reply is read to its end. -/
theorem readReply_encode (r : Reply) (depth : Nat) (rest : List Char) (h : r.WellFormed)
    (hdepth : r.encode.length ≤ depth) : readReply depth (r.encode ++ rest) = (r.outcome, rest) :=
  readReply_encode_of_nesting r depth rest h ((nesting_le_length r).trans hdepth)

/-- The result is an answer of the server. -/
def ReadResult.isReply : ReadResult → Bool
  | .fail => false
  | _ => true

theorem eq_of_fail {result : ReadResult} {rest rest' : List Char} {P : Prop}
    (hreply : result.isReply = true) (h : (ReadResult.fail, rest') = (result, rest)) : P := by
  obtain ⟨rfl, -⟩ := Prod.mk.inj h
  simp [ReadResult.isReply] at hreply

theorem readItems_append {depth depth' : Nat} {more : List Char}
    (hread : ∀ input rest result, result.isReply = true → readReply depth input = (result, rest) →
      readReply depth' (input ++ more) = (result, rest ++ more)) {count : Nat}
    {input rest : List Char} {items : List Value}
    (h : readItems depth count input = (some items, rest)) :
    readItems depth' count (input ++ more) = (some items, rest ++ more) := by
  induction count generalizing input rest items with
  | zero =>
    rw [readItems] at h ⊢
    obtain ⟨hitems, rfl⟩ := Prod.mk.inj h
    rw [hitems]
  | succ count ih =>
    rw [readItems] at h ⊢
    cases hfirst : readReply depth input with
    | mk result tail =>
      rw [hfirst] at h
      cases result with
      | fail => exact absurd h nofun
      | ok item | redisError item =>
        rw [hread input tail _ rfl hfirst]
        simp only at h ⊢
        cases hitems : readItems depth count tail with
        | mk read tail' =>
          rw [hitems] at h
          cases read with
          | none => exact absurd h nofun
          | some rest' =>
            obtain ⟨hcons, rfl⟩ := Prod.mk.inj h
            rw [ih hitems]
            simp [← hcons]

/-- What has been read does not depend on what follows. -/
theorem readReply_append {depth depth' : Nat} (hdepth : depth ≤ depth') {input rest : List Char}
    {result : ReadResult} (hreply : result.isReply = true)
    (h : readReply depth input = (result, rest)) (more : List Char) :
    readReply depth' (input ++ more) = (result, rest ++ more) := by
  induction depth generalizing depth' input rest result with
  | zero =>
    rw [readReply] at h
    exact eq_of_fail hreply h
  | succ depth ih =>
    obtain ⟨d, rfl⟩ : ∃ d, depth' = d + 1 := ⟨depth' - 1, by omega⟩
    have hread := fun input rest result hreply hread =>
      @ih d (by omega) input rest result hreply hread
    rw [readReply] at h ⊢
    cases hline : readLine input with
    | mk line tail =>
      rw [hline] at h
      rcases line with _ | _ | ⟨kind, text⟩
      · exact eq_of_fail hreply h
      · exact eq_of_fail hreply h
      · rw [readLine_append hline more]
        simp only at h ⊢
        by_cases hplus : kind = '+'
        · rw [if_pos hplus] at h ⊢
          obtain ⟨rfl, rfl⟩ := Prod.mk.inj h
          rfl
        rw [if_neg hplus] at h ⊢
        by_cases hminus : kind = '-'
        · rw [if_pos hminus] at h ⊢
          obtain ⟨rfl, rfl⟩ := Prod.mk.inj h
          rfl
        rw [if_neg hminus] at h ⊢
        cases hnumber : parseInt text with
        | none =>
          simp only [hnumber] at h
          split_ifs at h <;> exact eq_of_fail hreply h
        | some n =>
          simp only [hnumber] at h ⊢
          by_cases hcolon : kind = ':'
          · rw [if_pos hcolon] at h ⊢
            obtain ⟨rfl, rfl⟩ := Prod.mk.inj h
            rfl
          rw [if_neg hcolon] at h ⊢
          by_cases hneg : n < 0
          · simp only [hneg, if_true] at h ⊢
            split_ifs at h ⊢ with hbulk harray
            · obtain ⟨rfl, rfl⟩ := Prod.mk.inj h
              rfl
            · obtain ⟨rfl, rfl⟩ := Prod.mk.inj h
              rfl
            · exact eq_of_fail hreply h
          simp only [hneg, if_false] at h ⊢
          by_cases hbulk : kind = '$'
          · simp only [hbulk, if_true] at h ⊢
            by_cases hsize : n.toNat + 2 ≤ tail.length
            · rw [if_pos hsize] at h
              obtain ⟨rfl, rfl⟩ := Prod.mk.inj h
              have hsize' : n.toNat + 2 ≤ (tail ++ more).length := by
                rw [List.length_append]
                omega
              rw [if_pos hsize', List.take_append_of_le_length (by omega),
                List.drop_append_of_le_length hsize]
            · rw [if_neg hsize] at h
              exact eq_of_fail hreply h
          rw [if_neg hbulk] at h ⊢
          by_cases harray : kind = '*'
          · rw [if_pos harray] at h ⊢
            cases hitems : readItems depth n.toNat tail with
            | mk read tail' =>
              rw [hitems] at h
              cases read with
              | none => exact eq_of_fail hreply h
              | some items =>
                rw [readItems_append hread hitems]
                obtain ⟨rfl, rfl⟩ := Prod.mk.inj h
                rfl
          · rw [if_neg harray] at h
            exact eq_of_fail hreply h

/-- What is read from the beginning of a reply is the reply. -/
theorem eq_outcome_of_append {r : Reply} (hr : r.WellFormed) {input more rest : List Char}
    (hinput : input ++ more = r.encode) {result : ReadResult} (hreply : result.isReply = true)
    (h : readReply input.length input = (result, rest)) :
    result = r.outcome ∧ rest ++ more = [] := by
  have hlength : input.length ≤ r.encode.length := by
    rw [← hinput, List.length_append]
    omega
  have hmore := readReply_append hlength hreply h more
  have hall := readReply_encode r r.encode.length [] hr le_rfl
  rw [hinput] at hmore
  rw [List.append_nil] at hall
  exact Prod.mk.inj (hmore.symm.trans hall)

end AgentMemory.Redis
