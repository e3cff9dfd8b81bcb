import SyntaxGraph.Json.Reader
import SyntaxGraph.Json.Writer
import SyntaxGraph.Proofs.Json.Plain

/-!
# What is written is read back

A plain value has a list of tokens, `tokensOf`. Its text is scanned to these tokens however it is laid
out, without white space or with one line for each element and member, and the tokens are read to the
value. So reading a written text gives the value back, and nothing follows it.

The writers put a text in front of the text that follows it, and so does `ScansTo`: the characters up
to a rest come to some tokens, whatever was scanned before. Such pieces are put one after the other.
-/

namespace SyntaxGraph.Json

/-! ### The tokens of a value -/

mutual

/-- The tokens that a value is written with. -/
def tokensOf : Json → List Token
  | .null => [.null]
  | .bool b => [.bool b]
  | .number literal => [.number literal]
  | .text s => [.text s]
  | .array [] => [.openArray, .closeArray]
  | .array (x :: xs) => .openArray :: (tokensOf x ++ elementTokens xs ++ [.closeArray])
  | .object [] => [.openObject, .closeObject]
  | .object ((k, x) :: ms) =>
    .openObject :: .text k :: .colon :: (tokensOf x ++ memberTokens ms ++ [.closeObject])
  | .broken => [.bad]

/-- The tokens of the elements after the first. -/
def elementTokens : List Json → List Token
  | [] => []
  | x :: xs => .comma :: (tokensOf x ++ elementTokens xs)

/-- The tokens of the members after the first. -/
def memberTokens : List (Option String × Json) → List Token
  | [] => []
  | (k, x) :: ms => .comma :: .text k :: .colon :: (tokensOf x ++ memberTokens ms)

end

/-! ### Scanning in pieces -/

theorem scan_nil (done : List Token) (digits : List Char) :
    scan done digits [] = (closeNumber digits done).reverse := rfl

/-- The characters up to `rest` are scanned as the given tokens. -/
def ScansTo (cs : List Char) (ts : List Token) (rest : List Char) : Prop :=
  ∀ done, scan done [] cs = scan (ts.reverse ++ done) [] rest

namespace ScansTo

variable {cs mid rest : List Char} {ts us : List Token}

theorem trans (h : ScansTo cs ts mid) (h' : ScansTo mid us rest) : ScansTo cs (ts ++ us) rest := by
  intro done
  rw [h, h', List.reverse_append, List.append_assoc]

theorem cons {t : Token} (h : ScansTo cs [t] mid) (h' : ScansTo mid us rest) :
    ScansTo cs (t :: us) rest :=
  h.trans h'

/-- White space adds no token. -/
theorem blank (h : ScansTo cs [] mid) (h' : ScansTo mid us rest) : ScansTo cs us rest :=
  h.trans h'

theorem tokens_eq (h : ScansTo cs ts []) : tokens cs = ts := by
  rw [tokens, h, scan_nil, closeNumber]
  simp

end ScansTo

/-- What a character comes to that stands for itself, a blank being one that comes to nothing. -/
def mark? : Char → Option (List Token)
  | ' ' => some []
  | '\n' => some []
  | '[' => some [.openArray]
  | ']' => some [.closeArray]
  | '{' => some [.openObject]
  | '}' => some [.closeObject]
  | ',' => some [.comma]
  | ':' => some [.colon]
  | _ => none

theorem scansTo_mark {c : Char} {ts : List Token} (h : mark? c = some ts) (rest : List Char) :
    ScansTo (c :: rest) ts rest := by
  intro done
  rw [scan.eq_def]
  unfold mark? at h
  split at h
  case h_9 => simp at h
  all_goals
    obtain rfl := Option.some.inj h
    simp [isNumberChar, closeNumber]

section Marks

variable (rest : List Char)

theorem scansTo_openArray : ScansTo ('[' :: rest) [.openArray] rest :=
  scansTo_mark rfl rest

theorem scansTo_closeArray : ScansTo (']' :: rest) [.closeArray] rest :=
  scansTo_mark rfl rest

theorem scansTo_openObject : ScansTo ('{' :: rest) [.openObject] rest :=
  scansTo_mark rfl rest

theorem scansTo_closeObject : ScansTo ('}' :: rest) [.closeObject] rest :=
  scansTo_mark rfl rest

theorem scansTo_comma : ScansTo (',' :: rest) [.comma] rest :=
  scansTo_mark rfl rest

theorem scansTo_colon : ScansTo (':' :: rest) [.colon] rest :=
  scansTo_mark rfl rest

theorem scansTo_space : ScansTo (' ' :: rest) [] rest :=
  scansTo_mark rfl rest

theorem scansTo_newLine (level : Nat) : ScansTo (newLine level rest) [] rest := by
  have hspaces : ∀ n, ScansTo (List.replicate n ' ' ++ rest) [] rest := by
    intro n
    induction n with
    | zero => exact fun _ => rfl
    | succ n ih => exact (scansTo_space _).blank ih
  have hbreak : ScansTo (newLine level rest) [] (List.replicate (2 * level) ' ' ++ rest) :=
    scansTo_mark rfl _
  exact hbreak.blank (hspaces _)

end Marks

theorem scansTo_bool (rest : List Char) (b : Bool) :
    ScansTo (writeScalar rest (.bool b)) [.bool b] rest := by
  cases b <;> exact fun _ => rfl

/-! ### String literals -/

theorem unit?_hexDigit {n : Nat} (h : n < 32) :
    unit? '0' '0' (hexDigit (n / 16)) (hexDigit (n % 16)) = some n := by
  revert n
  decide

/-- An escaped character is scanned as the character. -/
theorem scanText_escapeChar (done : List Token) (pieces : List Piece) (c : Char)
    (rest : List Char) :
    scanText done pieces (escapeChar c ++ rest) = scanText done (.char c :: pieces) rest := by
  unfold escapeChar
  -- the characters that have a letter of their own
  iterate 7
    split
    · subst_vars
      rfl
  split
  · rename_i hlow
    have hc : c.toNat < 32 := hlow
    have hunit := unit?_hexDigit hc
    have hpiece : Piece.ofUnit c.toNat = .char c := by
      unfold Piece.ofUnit
      rw [if_neg (by omega), if_neg (by omega), Char.ofNat_toNat]
    rw [List.cons_append, scanText.eq_def]
    simp [hunit, hpiece]
  · rename_i hquote hslash _ _ _ _ _ hlow
    rw [List.singleton_append, scanText.eq_def]
    simp [hquote, hslash, hlow]

theorem scanText_flatMap (done : List Token) (pieces : List Piece) (cs rest : List Char) :
    scanText done pieces (cs.flatMap escapeChar ++ rest) =
      scanText done ((cs.map Piece.char).reverse ++ pieces) rest := by
  induction cs generalizing pieces with
  | nil => rfl
  | cons c cs ih =>
    rw [List.flatMap_cons, List.append_assoc, scanText_escapeChar, ih]
    simp

theorem assemble_map_char (cs : List Char) : assemble (cs.map Piece.char) = some cs := by
  induction cs with
  | nil => rfl
  | cons c cs ih => simp [assemble, ih]

theorem scansTo_writeText (s : String) (rest : List Char) :
    ScansTo (writeText (some s) rest) [.text (some s)] rest := by
  intro done
  have hopen : scan done [] (writeText (some s) rest) =
      scanText done [] (s.toList.flatMap escapeChar ++ '"' :: rest) := by
    rw [writeText, scan.eq_def]
    simp [isNumberChar, closeNumber]
  rw [hopen, scanText_flatMap, scanText.eq_def]
  simp [assemble_map_char]

/-! ### Numbers -/

/-- No number goes on here. -/
def EndsNumber (rest : List Char) : Prop :=
  ∀ c ∈ rest.head?, isNumberChar c = false

theorem endsNumber_cons {c : Char} {rest : List Char} (h : isNumberChar c = false) :
    EndsNumber (c :: rest) := by
  intro d hd
  obtain rfl : c = d := by simpa using hd
  exact h

theorem scan_run {digits : List Char} (h : ∀ c ∈ digits, isNumberChar c = true)
    (done : List Token) (before rest : List Char) :
    scan done before (digits ++ rest) = scan done (digits.reverse ++ before) rest := by
  induction digits generalizing before with
  | nil => rfl
  | cons c digits ih =>
    have hstep :
        scan done before (c :: (digits ++ rest)) = scan done (c :: before) (digits ++ rest) := by
      rw [scan.eq_def]
      simp [h c List.mem_cons_self]
    rw [List.cons_append, hstep, ih fun d hd => h d (List.mem_cons_of_mem c hd)]
    simp

/-- Where no number goes on, the one being read is complete. -/
theorem scan_endsNumber {rest : List Char} (h : EndsNumber rest) (done : List Token)
    (digits : List Char) : scan done digits rest = scan (closeNumber digits done) [] rest := by
  have hnone : ∀ done, closeNumber [] done = done := fun _ => rfl
  cases rest with
  | nil => rw [scan_nil, scan_nil, hnone]
  | cons c cs =>
    have hc := h c rfl
    rw [scan.eq_def, scan.eq_def _ [] _]
    simp [hc, hnone]

theorem scansTo_ofNat (n : Nat) {rest : List Char} (h : EndsNumber rest) :
    ScansTo (writeScalar rest (.ofNat n)) (tokensOf (.ofNat n)) rest := by
  intro done
  have hdigits : ∀ c ∈ Nat.toDigits 10 n, isNumberChar c = true := by
    intro c hc
    simp [isNumberChar, Number.all_isDigit_toDigits n c hc]
  have hclose : closeNumber (Nat.toDigits 10 n).reverse done =
      .number (String.ofList (Nat.toDigits 10 n)) :: done := by
    simp [closeNumber, Number.parts?_toDigits, Nat.toDigits_ne_nil]
  have hwritten : writeScalar rest (.ofNat n) = Nat.toDigits 10 n ++ rest :=
    congrArg (· ++ rest) String.toList_ofList
  rw [hwritten, scan_run hdigits, scan_endsNumber h, List.append_nil, hclose]
  rfl

/-! ### Written values -/

section Written

variable {fits : Nat → Prop} {rest : List Char}

theorem scansTo_compactElements {x : Json} {xs : List Json}
    (h : ∀ y ∈ x :: xs, ∀ rest, EndsNumber rest → ScansTo (compactTo rest y) (tokensOf y) rest)
    (hrest : EndsNumber rest) :
    ScansTo (compactElements rest (x :: xs)) (tokensOf x ++ elementTokens xs) rest := by
  induction xs generalizing x with
  | nil =>
    rw [compactElements, elementTokens, List.append_nil]
    exact h x List.mem_cons_self rest hrest
  | cons y xs ih =>
    rw [compactElements, elementTokens]
    have hx := h x List.mem_cons_self (',' :: compactElements rest (y :: xs)) (endsNumber_cons rfl)
    exact hx.trans ((scansTo_comma _).cons (ih fun z hz => h z (List.mem_cons_of_mem x hz)))

theorem scansTo_compactMembers {m : String × Json} {ms : List (String × Json)}
    (h : ∀ k ∈ m :: ms, ∀ rest, EndsNumber rest →
      ScansTo (compactTo rest k.2) (tokensOf k.2) rest)
    (hrest : EndsNumber rest) :
    ScansTo (compactMembers rest ((m :: ms).map fun k => (some k.1, k.2)))
      (.text (some m.1) :: .colon ::
        (tokensOf m.2 ++ memberTokens (ms.map fun k => (some k.1, k.2)))) rest := by
  induction ms generalizing m with
  | nil =>
    simp only [List.map_cons, List.map_nil, compactMembers, memberTokens, List.append_nil]
    exact (scansTo_writeText _ _).cons
      ((scansTo_colon _).cons (h m List.mem_cons_self rest hrest))
  | cons k ms ih =>
    simp only [List.map_cons, compactMembers, memberTokens] at ih ⊢
    have hm := h m List.mem_cons_self
      (',' :: compactMembers rest ((some k.1, k.2) :: ms.map fun k => (some k.1, k.2)))
      (endsNumber_cons rfl)
    exact (scansTo_writeText _ _).cons ((scansTo_colon _).cons
      (hm.trans ((scansTo_comma _).cons (ih fun z hz => h z (List.mem_cons_of_mem m hz)))))

/-- Without white space, a value is written with its tokens. -/
theorem scansTo_compactTo {j : Json} (h : j.Plain fits) (hrest : EndsNumber rest) :
    ScansTo (compactTo rest j) (tokensOf j) rest := by
  induction h generalizing rest with
  | bool b => exact scansTo_bool rest b
  | nat hn => exact scansTo_ofNat _ hrest
  | text s => exact scansTo_writeText s rest
  | @array xs _ ih =>
    cases xs with
    | nil => exact (scansTo_openArray _).cons (scansTo_closeArray rest)
    | cons x xs =>
      have hends : EndsNumber (']' :: rest) := endsNumber_cons rfl
      have helements := scansTo_compactElements (fun y hy rest hrest => ih y hy hrest) hends
      rw [compactTo, tokensOf]
      exact (scansTo_openArray _).cons (helements.trans (scansTo_closeArray rest))
  | @object ms _ ih =>
    cases ms with
    | nil => exact (scansTo_openObject _).cons (scansTo_closeObject rest)
    | cons m ms =>
      have hends : EndsNumber ('}' :: rest) := endsNumber_cons rfl
      have hmembers := scansTo_compactMembers (fun k hk rest hrest => ih k hk hrest) hends
      have hall := (scansTo_openObject _).cons (hmembers.trans (scansTo_closeObject rest))
      simpa only [ofMembers, List.map_cons, compactTo, tokensOf, List.cons_append] using hall

theorem scansTo_prettyElements {level : Nat} {xs : List Json}
    (h : ∀ x ∈ xs, ∀ rest, EndsNumber rest → ScansTo (prettyTo level rest x) (tokensOf x) rest)
    (hrest : EndsNumber rest) :
    ScansTo (prettyElements level rest xs) (elementTokens xs) rest ∧
      EndsNumber (prettyElements level rest xs) := by
  induction xs with
  | nil => exact ⟨fun _ => rfl, hrest⟩
  | cons x xs ih =>
    obtain ⟨hscan, hends⟩ := ih fun y hy => h y (List.mem_cons_of_mem x hy)
    refine ⟨?_, endsNumber_cons rfl⟩
    exact (scansTo_comma _).cons ((scansTo_newLine _ level).blank
      ((h x List.mem_cons_self _ hends).trans hscan))

theorem scansTo_prettyMembers {level : Nat} {ms : List (String × Json)}
    (h : ∀ m ∈ ms, ∀ rest, EndsNumber rest → ScansTo (prettyTo level rest m.2) (tokensOf m.2) rest)
    (hrest : EndsNumber rest) :
    ScansTo (prettyMembers level rest (ms.map fun m => (some m.1, m.2)))
        (memberTokens (ms.map fun m => (some m.1, m.2))) rest ∧
      EndsNumber (prettyMembers level rest (ms.map fun m => (some m.1, m.2))) := by
  induction ms with
  | nil => exact ⟨fun _ => rfl, hrest⟩
  | cons m ms ih =>
    obtain ⟨hscan, hends⟩ := ih fun k hk => h k (List.mem_cons_of_mem m hk)
    refine ⟨?_, endsNumber_cons rfl⟩
    exact (scansTo_comma _).cons ((scansTo_newLine _ level).blank
      ((scansTo_writeText _ _).cons ((scansTo_colon _).cons ((scansTo_space _).blank
        ((h m List.mem_cons_self _ hends).trans hscan)))))

/-- On lines of their own, too, the elements and members are written with the tokens of the value. -/
theorem scansTo_prettyTo {j : Json} (h : j.Plain fits) (level : Nat) (hrest : EndsNumber rest) :
    ScansTo (prettyTo level rest j) (tokensOf j) rest := by
  induction h generalizing level rest with
  | bool b => exact scansTo_bool rest b
  | nat hn => exact scansTo_ofNat _ hrest
  | text s => exact scansTo_writeText s rest
  | @array xs _ ih =>
    cases xs with
    | nil => exact (scansTo_openArray _).cons (scansTo_closeArray rest)
    | cons x xs =>
      have hclosed : EndsNumber (newLine level (']' :: rest)) := endsNumber_cons rfl
      obtain ⟨hscan, hends⟩ := scansTo_prettyElements
        (fun y hy rest hrest => ih y (List.mem_cons_of_mem x hy) (level + 1) hrest) hclosed
      have hx := ih x List.mem_cons_self (level + 1) hends
      have hclose := (scansTo_newLine (']' :: rest) level).blank (scansTo_closeArray rest)
      rw [prettyTo, tokensOf]
      exact (scansTo_openArray _).cons
        ((scansTo_newLine _ (level + 1)).blank ((hx.trans hscan).trans hclose))
  | @object ms _ ih =>
    cases ms with
    | nil => exact (scansTo_openObject _).cons (scansTo_closeObject rest)
    | cons m ms =>
      have hclosed : EndsNumber (newLine level ('}' :: rest)) := endsNumber_cons rfl
      obtain ⟨hscan, hends⟩ := scansTo_prettyMembers
        (fun k hk rest hrest => ih k (List.mem_cons_of_mem m hk) (level + 1) hrest) hclosed
      have hm := ih m List.mem_cons_self (level + 1) hends
      have hclose := (scansTo_newLine ('}' :: rest) level).blank (scansTo_closeObject rest)
      simp only [ofMembers, List.map_cons, prettyTo, tokensOf]
      exact (scansTo_openObject _).cons ((scansTo_newLine _ (level + 1)).blank
        ((scansTo_writeText _ _).cons ((scansTo_colon _).cons ((scansTo_space _).blank
          ((hm.trans hscan).trans hclose)))))

end Written

/-! ### Reading the tokens -/

namespace Reader

theorem run_of_step? {r r' : Reader} {t : Token} (h : r.step? t = some r') (ts : List Token) :
    r.run (t :: ts) = r'.run ts := by
  rw [run, h]

/-- In front of its tokens, a reader that waits for a value takes the value. -/
def Takes (j : Json) : Prop :=
  ∀ fs ts, (⟨fs, .value⟩ : Reader).run (tokensOf j ++ ts) = (fill j fs).run ts

/-- At the start of an array, the first element is taken like any value. -/
theorem run_arrayStart {fits : Nat → Prop} {j : Json} (h : j.Plain fits) (fs : List Frame)
    (ts : List Token) :
    (⟨fs, .arrayStart⟩ : Reader).run (tokensOf j ++ ts) =
      (⟨.element [] :: fs, .value⟩ : Reader).run (tokensOf j ++ ts) := by
  cases h with
  | bool b => rfl
  | nat hn => rfl
  | text s => rfl
  | @array xs _ => cases xs <;> rfl
  | @object ms _ => cases ms <;> rfl

theorem run_arrayNext {xs : List Json} (h : ∀ x ∈ xs, Takes x) (fs : List Frame) (done : List Json)
    (ts : List Token) :
    (⟨fs, .arrayNext done⟩ : Reader).run (elementTokens xs ++ .closeArray :: ts) =
      (fill (.array (done.reverse ++ xs)) fs).run ts := by
  induction xs generalizing done with
  | nil =>
    rw [List.append_nil]
    exact run_of_step? rfl ts
  | cons x xs ih =>
    rw [elementTokens, List.cons_append, List.append_assoc, run_of_step? rfl,
      h x List.mem_cons_self, fill, ih fun y hy => h y (List.mem_cons_of_mem x hy)]
    simp

theorem run_objectNext {ms : List (String × Json)} (h : ∀ m ∈ ms, Takes m.2) (fs : List Frame)
    (done : List (Option String × Json)) (ts : List Token) :
    (⟨fs, .objectNext done⟩ : Reader).run
        (memberTokens (ms.map fun m => (some m.1, m.2)) ++ .closeObject :: ts) =
      (fill (.object (done.reverse ++ ms.map fun m => (some m.1, m.2))) fs).run ts := by
  induction ms generalizing done with
  | nil =>
    rw [List.map_nil, List.append_nil]
    exact run_of_step? rfl ts
  | cons m ms ih =>
    rw [List.map_cons, memberTokens, List.cons_append, List.cons_append, List.cons_append,
      List.append_assoc, run_of_step? rfl, run_of_step? rfl, run_of_step? rfl,
      h m List.mem_cons_self, fill, ih fun k hk => h k (List.mem_cons_of_mem m hk)]
    simp

/-- **The tokens of a plain value are read to the value.** -/
theorem takes_of_plain {fits : Nat → Prop} {j : Json} (h : j.Plain fits) : Takes j := by
  induction h with
  | bool b => exact fun _ _ => rfl
  | nat hn => exact fun _ _ => rfl
  | text s => exact fun _ _ => rfl
  | @array xs hxs ih =>
    intro fs ts
    cases xs with
    | nil => rfl
    | cons x xs =>
      rw [tokensOf, List.cons_append, List.append_assoc, List.append_assoc, run_of_step? rfl,
        run_arrayStart (hxs x List.mem_cons_self), ih x List.mem_cons_self, fill]
      exact run_arrayNext (fun y hy => ih y (List.mem_cons_of_mem x hy)) fs [x] ts
  | @object ms hms ih =>
    intro fs ts
    cases ms with
    | nil => rfl
    | cons m ms =>
      simp only [ofMembers, List.map_cons, tokensOf, List.cons_append, List.append_assoc]
      rw [run_of_step? rfl, run_of_step? rfl, run_of_step? rfl, ih m List.mem_cons_self, fill]
      exact run_objectNext (fun k hk => ih k (List.mem_cons_of_mem m hk)) fs [(some m.1, m.2)] ts

end Reader

theorem run_start {fits : Nat → Prop} {j : Json} (h : j.Plain fits) :
    Reader.start.run (tokensOf j) = ⟨j, true⟩ := by
  have hrun := Reader.takes_of_plain h [] []
  rw [List.append_nil] at hrun
  exact hrun

/-- **A plain value is read back from its text without white space.** -/
theorem read_compact {fits : Nat → Prop} {j : Json} (h : j.Plain fits) :
    read j.compact = ⟨j, true⟩ := by
  have hends : EndsNumber [] := by simp [EndsNumber]
  have hscan := scansTo_compactTo h hends
  rw [read, compact, String.toList_ofList, hscan.tokens_eq, run_start h]

/-- **A plain value is read back from its text with one line for each element and member.** -/
theorem read_pretty {fits : Nat → Prop} {j : Json} (h : j.Plain fits) :
    read j.pretty = ⟨j, true⟩ := by
  have hends : EndsNumber [] := by simp [EndsNumber]
  have hscan := scansTo_prettyTo h 0 hends
  rw [read, pretty, String.toList_ofList, hscan.tokens_eq, run_start h]

end SyntaxGraph.Json
