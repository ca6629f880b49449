import SourceTidy.Proofs.Php.Scans
import SourceTidy.Proofs.Php.Tiles

/-!
# What the kind of a token tells

The tokens of this library's lexer do more than tile a source. Their kinds can be relied on (`Fits`): blanks hold nothing but blanks,
a comment or a tag starts with a mark, the name of a member comes after an arrow or a double colon, and the name of a function
after the word `function`. This is shown of every rule once (`sound_rules`), and of all tokens by following the reader with its
stack of modes (`lexical_tokensFrom`).
-/

namespace SourceTidy.Php

/-! ## The words of the code -/

/-- Whether a token is read over. -/
def Token.isPassed (k : Token) : Bool := k.text.isEmpty || k.kind.isTrivia

/-- The words of the code: the texts of the tokens that are not read over, with letters of ASCII in lower case. -/
def codeWords (ks : List Token) : List Text := (ks.filter (!·.isPassed)).map (·.text.asciiLower)

@[simp] theorem codeWords_nil : codeWords [] = [] := rfl

@[simp] theorem codeWords_append (ks ks' : List Token) : codeWords (ks ++ ks') = codeWords ks ++ codeWords ks' := by
  simp [codeWords]

theorem codeWords_cons (k : Token) (ks : List Token) :
    codeWords (k :: ks) = (if k.isPassed then [] else [k.text.asciiLower]) ++ codeWords ks := by
  cases hk : k.isPassed <;> simp [codeWords, hk]

theorem codeWords_concat_of_trivia {ks : List Token} {k : Token} (hk : k.kind.isTrivia = true) :
    codeWords (ks ++ [k]) = codeWords ks := by
  simp [codeWords_cons, Token.isPassed, hk]

/-- The signs of access to a member. -/
def accessSigns : List Text := ["->", "?->", "::"]

/-- Some words end with a sign of access to a member. -/
def EndsWithAccess (words : List Text) : Prop := ∃ sign ∈ accessSigns, words.getLast? = some sign

/-- Some words end with the word `function` as the lexer reads it, or with that and the mark of a reference. -/
def EndsWithFunction (words : List Text) : Prop :=
  ∃ front word, word.map bareCase = Text.ofString "function" ∧
    (words = front ++ [word] ∨ words = front ++ [word, Text.ofString "&"])

theorem EndsWithFunction.append {words : List Text} (h : EndsWithFunction words) (before : List Text) :
    EndsWithFunction (before ++ words) := by
  obtain ⟨front, word, hword, rfl | rfl⟩ := h
  · exact ⟨before ++ front, word, hword, .inl (by simp)⟩
  · exact ⟨before ++ front, word, hword, .inr (by simp)⟩

/-! ## Tokens that fit -/

namespace TokenKind

/-- Blanks, a line feed at which the reading starts anew among them. -/
def isSpacing : TokenKind → Bool
  | space | reset => true
  | _ => false

/-- Comments of every form, and tags. -/
def isRemark : TokenKind → Bool
  | tag | lineComment | blockComment | docComment => true
  | _ => false

theorem isTrivia_eq (kind : TokenKind) : kind.isTrivia = (kind.isSpacing || kind.isRemark) := by
  cases kind <;> rfl

/-- A kind that tells nothing of where a token stands and of its text. -/
def isPlain (kind : TokenKind) : Bool := !(kind.isTrivia || kind == member || kind == functionName || kind == magicFunction)

end TokenKind

/-- A token whose kind can be relied on, after some others. -/
structure Fits (prior : List Token) (k : Token) : Prop where
  spacing : k.kind.isSpacing = true → ∀ c ∈ k.text, c.isBlank = true
  remark : k.kind.isRemark = true → ∃ c rest, k.text = c :: rest ∧ c.isBlank = false
  member : k.kind = .member → EndsWithAccess (codeWords prior)
  /-- The name of a function that starts a word. The methods that PHP calls by itself are a kind of their own, and what may follow
  one directly is read as the name of a function as well. -/
  function : k.kind = .functionName → k.text.head?.any CodePoint.isWord = true → EndsWithFunction (codeWords prior)
  magic : k.kind = .magicFunction → k.text.map bareCase ∈ magicMethods

/-- Tokens after some others, each of which fits. -/
inductive Lexical : List Token → List Token → Prop where
  | nil (prior : List Token) : Lexical prior []
  | cons {prior : List Token} {k : Token} {ks : List Token} (head : Fits prior k) (tail : Lexical (prior ++ [k]) ks) :
      Lexical prior (k :: ks)

theorem Lexical.append {prior ks ks' : List Token} (h : Lexical prior ks) (h' : Lexical (prior ++ ks) ks') :
    Lexical prior (ks ++ ks') := by
  induction h with
  | nil prior => rwa [List.append_nil] at h'
  | cons head tail ih => exact .cons head (ih (by rwa [List.append_assoc]))

theorem Lexical.fits {prior before after : List Token} {k : Token} (h : Lexical prior (before ++ k :: after)) :
    Fits (prior ++ before) k := by
  induction before generalizing prior with
  | nil =>
    cases h with
    | cons head tail => rwa [List.append_nil]
  | cons first before ih =>
    cases h with
    | cons head tail =>
      rw [List.append_cons]
      exact ih tail

/-- A text that fits a kind wherever it stands. -/
def FitsAnywhere (kind : TokenKind) (text : Text) : Prop := ∀ prior offset, Fits prior ⟨offset, kind, text⟩

theorem fitsAnywhere_plain {kind : TokenKind} (h : kind.isPlain = true) (text : Text) : FitsAnywhere kind text := by
  simp only [TokenKind.isPlain, TokenKind.isTrivia_eq, Bool.not_eq_true', Bool.or_eq_false_iff, beq_eq_false_iff_ne] at h
  obtain ⟨⟨⟨⟨hspacing, hremark⟩, hmember⟩, hfunction⟩, hmagic⟩ := h
  intro prior offset
  exact {
    spacing := fun hkind => absurd hkind (by simp [hspacing])
    remark := fun hkind => absurd hkind (by simp [hremark])
    member := fun hkind => absurd hkind hmember
    function := fun hkind => absurd hkind hfunction
    magic := fun hkind => absurd hkind hmagic }

theorem fitsAnywhere_spacing {kind : TokenKind} (hkind : kind.isSpacing = true) {text : Text}
    (h : ∀ c ∈ text, c.isBlank = true) : FitsAnywhere kind text := by
  intro prior offset
  cases kind <;> cases hkind
  all_goals exact ⟨fun _ => h, nofun, nofun, nofun, nofun⟩

theorem fitsAnywhere_remark {kind : TokenKind} (hkind : kind.isRemark = true) {c : CodePoint} {rest : Text}
    (hc : c.isBlank = false) : FitsAnywhere kind (c :: rest) := by
  intro prior offset
  cases kind <;> cases hkind
  all_goals exact ⟨nofun, fun _ => ⟨c, rest, rfl, hc⟩, nofun, nofun, nofun⟩

/-! ## Tokens that are cut by lengths -/

/-- The pieces that some lengths cut from a text fit their kinds. -/
def PiecesFit : List (TokenKind × Nat) → Text → Prop
  | [], _ => True
  | (kind, n) :: parts, t => (t.take n ≠ [] → FitsAnywhere kind (t.take n)) ∧ PiecesFit parts (t.drop n)

theorem piecesFit_plain {parts : List (TokenKind × Nat)} (h : ∀ part ∈ parts, part.1.isPlain = true) (t : Text) :
    PiecesFit parts t := by
  induction parts generalizing t with
  | nil => trivial
  | cons part parts ih =>
    obtain ⟨hhead, htail⟩ := List.forall_mem_cons.1 h
    exact ⟨fun _ => fitsAnywhere_plain hhead _, ih htail _⟩

theorem PiecesFit.append {parts parts' : List (TokenKind × Nat)} {t : Text} (h : PiecesFit parts t)
    (h' : PiecesFit parts' (t.drop (totalLength parts))) : PiecesFit (parts ++ parts') t := by
  induction parts generalizing t with
  | nil => exact h'
  | cons part parts ih =>
    refine ⟨h.1, ih h.2 ?_⟩
    rwa [List.drop_drop]

/-- What one piece adds: nothing if it is empty, and a token otherwise. -/
theorem slices_cons (offset : Nat) (kind : TokenKind) (n : Nat) (parts : List (TokenKind × Nat)) (t : Text) :
    t.take n = [] ∧ slices offset ((kind, n) :: parts) t = slices offset parts (t.drop n) ∨
      t.take n ≠ [] ∧ slices offset ((kind, n) :: parts) t =
        ⟨offset, kind, t.take n⟩ :: slices (offset + (t.take n).length) parts (t.drop n) := by
  rw [slices]
  cases hpiece : t.take n with
  | nil =>
    have hdrop : t.drop n = t := by
      have := List.take_append_drop n t
      rwa [hpiece] at this
    exact .inl ⟨rfl, by rw [hdrop]⟩
  | cons c piece => exact .inr ⟨List.cons_ne_nil c piece, rfl⟩

theorem PiecesFit.lexical {parts : List (TokenKind × Nat)} {t : Text} (h : PiecesFit parts t) (prior : List Token)
    (offset : Nat) : Lexical prior (slices offset parts t) := by
  induction parts generalizing prior offset t with
  | nil => exact .nil prior
  | cons part parts ih =>
    obtain ⟨kind, n⟩ := part
    rcases slices_cons offset kind n parts t with ⟨-, heq⟩ | ⟨hpiece, heq⟩
    · rw [heq]
      exact ih h.2 prior offset
    · rw [heq]
      exact .cons (h.1 hpiece prior offset) (ih h.2 _ _)

section Words

variable (offset : Nat) (kind : TokenKind) {n : Nat} (parts : List (TokenKind × Nat)) {t : Text}

theorem slices_of_empty (h : t.take n = []) : slices offset ((kind, n) :: parts) t = slices offset parts (t.drop n) := by
  rcases slices_cons offset kind n parts t with ⟨-, heq⟩ | ⟨hpiece, -⟩
  · exact heq
  · exact absurd h hpiece

/-- A piece that is trivia adds no word. -/
theorem codeWords_slices_of_trivia (h : kind.isTrivia = true) :
    ∃ offset', codeWords (slices offset ((kind, n) :: parts) t) = codeWords (slices offset' parts (t.drop n)) := by
  rcases slices_cons offset kind n parts t with ⟨-, heq⟩ | ⟨-, heq⟩
  · exact ⟨offset, by rw [heq]⟩
  · exact ⟨_, by rw [heq, codeWords_cons, Token.isPassed, h, Bool.or_true, if_pos rfl, List.nil_append]⟩

/-- Any other piece adds its text, unless that is empty. -/
theorem codeWords_slices_of_word (h : kind.isTrivia = false) (hpiece : t.take n ≠ []) :
    ∃ offset', codeWords (slices offset ((kind, n) :: parts) t) =
      Text.asciiLower (t.take n) :: codeWords (slices offset' parts (t.drop n)) := by
  rcases slices_cons offset kind n parts t with ⟨hempty, -⟩ | ⟨-, heq⟩
  · exact absurd hempty hpiece
  · have hpassed : ¬ ((t.take n).isEmpty || kind.isTrivia) = true := by simpa [h] using hpiece
    exact ⟨_, by rw [heq, codeWords_cons, Token.isPassed, if_neg hpassed, List.singleton_append]⟩

end Words

/-- A scan takes what fits a kind. -/
def Scan.TakesKind (scan : Scan) (kind : TokenKind) : Prop :=
  ∀ t n, scan t = some n → t.take n ≠ [] → FitsAnywhere kind (t.take n)

namespace Scan

theorem takesKind_plain {kind : TokenKind} (h : kind.isPlain = true) (scan : Scan) : scan.TakesKind kind := by
  intro t n _ _
  exact fitsAnywhere_plain h (t.take n)

theorem TakesBlanks.takesKind {scan : Scan} (h : scan.TakesBlanks) : scan.TakesKind .space := by
  intro t n hn _
  exact fitsAnywhere_spacing rfl (h t n hn)

theorem TakesFrom.takesKind {c : CodePoint} {scan : Scan} (h : scan.TakesFrom c) (hc : c.isBlank = false)
    {kind : TokenKind} (hkind : kind.isRemark = true) : scan.TakesKind kind := by
  intro t n hn _
  obtain ⟨rest, hrest⟩ := h t n hn
  rw [hrest]
  exact fitsAnywhere_remark hkind hc

end Scan

theorem piecesFit_of_parts {scans : List (TokenKind × Scan)} (h : ∀ p ∈ scans, p.2.TakesKind p.1) {t : Text}
    {ps : List (TokenKind × Nat)} (hps : Rule.parts scans t = some ps) : PiecesFit ps t := by
  induction scans generalizing t ps with
  | nil =>
    cases hps
    trivial
  | cons p scans ih =>
    obtain ⟨kind, scan⟩ := p
    simp only [Rule.parts, Option.bind_eq_bind, Option.bind_eq_some_iff, Option.pure_def, Option.some.injEq] at hps
    obtain ⟨n, hn, ps, hps, rfl⟩ := hps
    obtain ⟨hhead, htail⟩ := List.forall_mem_cons.1 h
    exact ⟨hhead t n hn, ih htail hps⟩

/-! ## Rules -/

/-- A rule of any mode but that of a function's name: the tokens that it cuts fit wherever they stand, and where it says that the
name of a function comes next, it has just read the word `function`. -/
structure Rule.Sound (r : Rule) : Prop where
  lexical : ∀ t parts, r.cut t = some (.tokens parts) → ∀ prior offset, Lexical prior (slices offset parts t)
  naming : r.move = .push .functionName → ∀ t cut, r.cut t = some cut →
    ∃ parts, cut = .tokens parts ∧ ∀ offset, EndsWithFunction (codeWords (slices offset parts t))

namespace Rule

theorem sound_token {kind : TokenKind} {scan : Scan} (h : scan.TakesKind kind) : (token kind scan).Sound where
  lexical t parts hcut prior offset := by
    obtain ⟨n, hn, hparts⟩ := Option.map_eq_some_iff.1 hcut
    cases hparts
    have hpieces : PiecesFit [(kind, n)] t := ⟨h t n hn, trivial⟩
    exact hpieces.lexical prior offset
  naming hmove := nomatch hmove

theorem sound_plain {kind : TokenKind} (h : kind.isPlain = true) (scan : Scan) : (token kind scan).Sound :=
  sound_token (Scan.takesKind_plain h scan)

theorem sound_remark {kind : TokenKind} (hkind : kind.isRemark = true) {c : CodePoint} (hc : c.isBlank = false) {scan : Scan}
    (h : scan.TakesFrom c) : (token kind scan).Sound :=
  sound_token (h.takesKind hc hkind)

theorem sound_sequence {scans : List (TokenKind × Scan)} (h : ∀ p ∈ scans, p.2.TakesKind p.1) : (sequence scans).Sound where
  lexical t parts hcut prior offset := by
    obtain ⟨ps, hps, hparts⟩ := Option.map_eq_some_iff.1 hcut
    cases hparts
    exact (piecesFit_of_parts h hps).lexical prior offset
  naming hmove := nomatch hmove

theorem Sound.andMove {r : Rule} (h : r.Sound) {m : Move} (hm : m ≠ .push .functionName) : (r.andMove m).Sound :=
  ⟨h.lexical, fun hmove => absurd hmove hm⟩

theorem sound_embedded (opening start closing : Text) (h : 0 < opening.length) : (embedded opening start closing h).Sound where
  lexical t parts hcut := by
    simp [embedded, Option.bind_eq_some_iff] at hcut
  naming hmove := nomatch hmove

theorem sound_bracedName : bracedName.Sound where
  lexical t parts hcut prior offset := by
    simp only [bracedName, Option.bind_eq_bind, Option.bind_eq_some_iff, Option.pure_def, Option.some.injEq] at hcut
    obtain ⟨opening, -, name, -, hparts⟩ := hcut
    cases hparts
    exact (piecesFit_plain (by simp; decide) t).lexical prior offset
  naming hmove := nomatch hmove

/-! ### The end of a heredoc -/

/-- Behind the delimiter that ends a heredoc, and the semicolon if there is one, a line ends. -/
def EndsLineAfter (delimiter t : Text) (found : Nat × Bool) : Prop :=
  (t.drop (found.1 + delimiter.length + if found.2 then 1 else 0)).head? = some ('\n' : CodePoint)

theorem endsLineAfter_of_ending {delimiter t : Text} {n : Nat} {found : Nat × Bool}
    (h : heredocEnd.ending delimiter t n = some found) : EndsLineAfter delimiter t found := by
  unfold EndsLineAfter
  simp only [heredocEnd.ending] at h
  split at h
  · split at h
    · rename_i hsemicolon
      cases h
      obtain ⟨rest, hrest⟩ := (Text.startsWith_iff _ _).1 hsemicolon
      rw [List.drop_drop] at hrest
      rw [if_pos rfl, ← List.drop_drop, hrest]
      rfl
    · split at h
      · rename_i hfeed
        cases h
        rw [beq_iff_eq, List.drop_drop] at hfeed
        exact hfeed
      · cases h
  · cases h

theorem endsLineAfter_of_heredocEnd {delimiter t : Text} {n : Nat} {found : Nat × Bool}
    (h : heredocEnd delimiter t n = some found) : EndsLineAfter delimiter t found := by
  induction n with
  | zero => exact endsLineAfter_of_ending h
  | succ n ih =>
    rw [heredocEnd] at h
    cases hhere : heredocEnd.ending delimiter t (n + 1) with
    | none =>
      rw [hhere] at h
      exact ih h
    | some here =>
      rw [hhere] at h
      cases h
      exact endsLineAfter_of_ending hhere

theorem endsLineAfter_of_heredocBody {delimiter t : Text} {found : Nat × Bool} (h : heredocBody delimiter t = some found) :
    EndsLineAfter delimiter t found := by
  induction t generalizing found with
  | nil => cases h
  | cons c t ih =>
    have hshift {n : Nat} {semicolon : Bool} (hn : EndsLineAfter delimiter t (n, semicolon)) :
        EndsLineAfter delimiter (c :: t) (n + 1, semicolon) := by
      unfold EndsLineAfter at hn ⊢
      simpa only [Nat.add_right_comm _ 1, List.drop_succ_cons] using hn
    simp only [heredocBody] at h
    split at h
    · rename_i hhere
      cases h
      split at hhere
      · exact hshift (endsLineAfter_of_heredocEnd hhere)
      · cases hhere
    · obtain ⟨⟨n, semicolon⟩, hbody, rfl⟩ := Option.map_eq_some_iff.1 h
      exact hshift (ih hbody)

theorem sound_heredoc : heredoc.Sound where
  lexical t parts hcut prior offset := by
    simp only [heredoc, Option.bind_eq_bind, Option.bind_eq_some_iff, Option.pure_def, Option.some.injEq] at hcut
    obtain ⟨opening, -, name, hname, start, -, ⟨body, semicolon⟩, hbody, hparts⟩ := hcut
    cases hparts
    refine PiecesFit.lexical ?_ prior offset
    -- The line end is the last of the pieces, and the only one whose kind tells anything.
    generalize hquote : (((t.drop opening).take _).length) = quote at *
    show PiecesFit ([(.heredoc, opening), (.heredoc, quote), (.delimiter, name), (.heredoc, start + body), (.delimiter, name),
      (.punctuation, if semicolon then 1 else 0)] ++ [(.space, 1)]) t
    refine (piecesFit_plain (by simp; decide) t).append ⟨fun _ => fitsAnywhere_spacing rfl ?_, trivial⟩
    have hline := endsLineAfter_of_heredocBody hbody
    have hlength : (((t.drop opening).drop quote).take name).length = name :=
      List.length_take_of_le (Scan.le_length_of_simpleName hname)
    unfold EndsLineAfter at hline
    rw [List.length_map, hlength, List.drop_drop, List.drop_drop, List.drop_drop] at hline
    have hplace : totalLength [(TokenKind.heredoc, opening), (.heredoc, quote), (.delimiter, name), (.heredoc, start + body),
        (.delimiter, name), (.punctuation, if semicolon then 1 else 0)] =
        opening + (quote + (name + start + (body + name + if semicolon = true then 1 else 0))) := by
      simp only [totalLength, List.foldr_cons, List.foldr_nil]
      omega
    obtain ⟨rest, hrest⟩ := List.head?_eq_some_iff.1 hline
    have hfeed : ∀ c ∈ [('\n' : CodePoint)], c.isBlank = true := by decide
    rwa [hplace, hrest]
  naming hmove := nomatch hmove

/-! ### Names of members and functions -/

/-- A name that comes after a sign of access. -/
theorem lexical_member {prior : List Token} (h : EndsWithAccess (codeWords prior)) (offset n : Nat) (t : Text) :
    Lexical prior (slices offset [(.member, n)] t) := by
  rcases slices_cons offset .member n [] t with ⟨-, heq⟩ | ⟨-, heq⟩
  · rw [heq]
    exact .nil prior
  · rw [heq]
    exact .cons ⟨nofun, nofun, fun _ => h, nofun, nofun⟩ (.nil _)

theorem sound_member : (sequence [(.operator, .orElse (.exact "->") (.exact "::")), (.space, blanksBefore startsSimpleName),
    (.member, .simpleName)]).Sound where
  lexical t parts hcut prior offset := by
    obtain ⟨ps, hps, hparts⟩ := Option.map_eq_some_iff.1 hcut
    cases hparts
    simp only [Rule.parts, Option.bind_eq_bind, Option.bind_eq_some_iff, Option.pure_def, Option.some.injEq] at hps
    obtain ⟨n, hn, _, ⟨m, hm, _, ⟨k, -, _, rfl, rfl⟩, rfl⟩, rfl⟩ := hps
    have hsign : t.take n = Text.ofString "->" ∨ t.take n = Text.ofString "::" :=
      (Scan.eq_some_of_orElse hn).imp Scan.take_of_exact Scan.take_of_exact
    rcases slices_cons offset .operator n [(.space, m), (.member, k)] t with ⟨hnil, -⟩ | ⟨-, heq⟩
    · rw [hnil] at hsign
      exact absurd hsign (by decide)
    rw [heq]
    refine .cons (fitsAnywhere_plain rfl _ prior offset) ?_
    have haccess : EndsWithAccess (codeWords (prior ++ [⟨offset, .operator, t.take n⟩])) := by
      rw [codeWords_append]
      rcases hsign with hsign | hsign
      · rw [hsign]
        exact ⟨Text.ofString "->", by decide, List.getLast?_concat⟩
      · rw [hsign]
        exact ⟨Text.ofString "::", by decide, List.getLast?_concat⟩
    generalize prior ++ [⟨offset, .operator, t.take n⟩] = prior at haccess
    rcases slices_cons (offset + (t.take n).length) .space m [(.member, k)] (t.drop n) with ⟨-, heq⟩ | ⟨hpiece, heq⟩
    · rw [heq]
      exact lexical_member haccess _ k _
    · rw [heq]
      refine .cons ((Scan.takesBlanks_blanksBefore _).takesKind _ m hm hpiece prior _) (lexical_member ?_ _ k _)
      rwa [codeWords_concat_of_trivia rfl]
  naming hmove := nomatch hmove

theorem sound_function : (Rule.andMove (sequence [(.keyword, .word "function"), (.space, blanks1),
    (.operator, .optional (.exact "&")), (.space, blanks)]) (.push .functionName)).Sound where
  lexical := by
    refine (sound_sequence ?_).lexical
    simp only [List.forall_mem_cons]
    exact ⟨Scan.takesKind_plain rfl _, Scan.takesBlanks_blanks1.takesKind, Scan.takesKind_plain rfl _,
      Scan.takesBlanks_blanks.takesKind, by simp⟩
  naming := by
    intro _ t cut hcut
    obtain ⟨ps, hps, rfl⟩ := Option.map_eq_some_iff.1 hcut
    refine ⟨ps, rfl, ?_⟩
    intro offset
    simp only [Rule.parts, Option.bind_eq_bind, Option.bind_eq_some_iff, Option.pure_def, Option.some.injEq] at hps
    obtain ⟨n, hn, _, ⟨m, -, _, ⟨k, hk, _, ⟨l, -, _, rfl, rfl⟩, rfl⟩, rfl⟩, rfl⟩ := hps
    rw [Scan.word, Option.ite_none_right_eq_some] at hn
    obtain ⟨hword, hn⟩ := hn
    cases hn
    have hne : t.take (Text.ofString "function").length ≠ [] := by
      intro hnil
      rw [hnil] at hword
      exact absurd hword (by decide)
    have hlower := (Scan.map_bareCase_asciiLower _).trans hword
    obtain ⟨_, hkeyword⟩ :=
      codeWords_slices_of_word offset .keyword [(.space, m), (.operator, k), (.space, l)] rfl hne
    obtain ⟨offset', hspace⟩ := codeWords_slices_of_trivia _ .space [(.operator, k), (.space, l)] rfl
    rw [hkeyword, hspace]
    rcases Scan.take_of_optional_exact hk with hmark | hmark
    · obtain ⟨_, hlast⟩ := codeWords_slices_of_trivia offset' .space [] rfl
      rw [slices_of_empty offset' .operator [(.space, l)] hmark, hlast]
      exact ⟨[], _, hlower, .inl rfl⟩
    · obtain ⟨_, hreference⟩ := codeWords_slices_of_word offset' .operator [(.space, l)] rfl (hmark.trans_ne (by decide))
      obtain ⟨_, hlast⟩ := codeWords_slices_of_trivia _ .space [] rfl
      rw [hreference, hlast, hmark]
      exact ⟨[], _, hlower, .inr rfl⟩

/-! ### All rules -/

theorem sound_codeRules : ∀ r ∈ codeRules, r.Sound := by
  have hspace : Scan.TakesKind blanks1 .space := Scan.takesBlanks_blanks1.takesKind
  have hahead : Scan.TakesKind (.andThen blanks (.ahead '(')) .space :=
    (Scan.takesBlanks_blanks.andThen (Scan.takesBlanks_ahead _)).takesKind
  have hbefore : Scan.TakesKind (.andThen (.one CodePoint.isBlank) (blanksBefore startsName)) .space :=
    (Scan.takesBlanks_one.andThen (Scan.takesBlanks_blanksBefore _)).takesKind
  have hplain {kind : TokenKind} (hkind : kind.isPlain = true) (scan : Scan) := Scan.takesKind_plain hkind scan
  simp only [codeRules, List.forall_mem_cons]
  exact ⟨(sound_remark rfl (by decide) (Scan.takesFrom_exact rfl)).andMove (by decide),
    sound_heredoc,
    sound_token Scan.takesBlanks_blanks1.takesKind,
    (sound_plain rfl _).andMove (by decide),
    sound_remark rfl (by decide) ((Scan.takesFrom_exact rfl).andThen _),
    sound_remark rfl (by decide) ((Scan.takesFrom_exact rfl).andThen _),
    sound_remark rfl (by decide) (Scan.takesFrom_exact rfl),
    sound_remark rfl (by decide) ((Scan.takesFrom_exact rfl).andThen _),
    sound_remark rfl (by decide) ((Scan.takesFrom_exact rfl).andThen _),
    sound_member,
    sound_plain rfl _,
    sound_plain rfl _,
    sound_plain rfl _,
    sound_sequence (by simp only [List.forall_mem_cons]; exact ⟨hplain rfl _, hspace, hplain rfl _, by simp⟩),
    (sound_sequence (by simp only [List.forall_mem_cons]; exact ⟨hplain rfl _, hspace, by simp⟩)).andMove (by decide),
    sound_sequence (by simp only [List.forall_mem_cons]; exact ⟨hplain rfl _, hahead, by simp⟩),
    sound_function,
    sound_sequence (by simp only [List.forall_mem_cons]; exact ⟨hplain rfl _, hbefore, hplain rfl _, by simp⟩),
    sound_plain rfl _,
    sound_plain rfl _,
    sound_plain rfl _,
    (sound_plain rfl _).andMove (by decide),
    sound_plain rfl _,
    sound_plain rfl _,
    sound_plain rfl _,
    sound_plain rfl _,
    sound_plain rfl _,
    sound_plain rfl _,
    sound_plain rfl _,
    sound_plain rfl _,
    sound_plain rfl _,
    (sound_plain rfl _).andMove (by decide), by simp⟩

theorem sound_htmlRules : ∀ r ∈ htmlRules, r.Sound := by
  simp only [htmlRules, List.forall_mem_cons]
  exact ⟨(sound_remark rfl (by decide) ((Scan.takesFrom_exact rfl).andThen _)).andMove (by decide), sound_plain rfl _,
    sound_plain rfl _, by simp⟩

theorem sound_doubleQuotedRules : ∀ r ∈ doubleQuotedRules, r.Sound := by
  simp only [doubleQuotedRules, List.forall_mem_cons]
  exact ⟨(sound_plain rfl _).andMove (by decide), sound_plain rfl _, sound_plain rfl _, sound_plain rfl _,
    sound_embedded _ _ _ _, sound_embedded _ _ _ _, sound_bracedName, sound_plain rfl _, by simp⟩

/-- Every rule but those of a function's name is sound. -/
theorem sound_rules {m : Mode} (hm : m ≠ .functionName) : ∀ r ∈ rules m, r.Sound := by
  cases m with
  | html => exact sound_htmlRules
  | code => exact sound_codeRules
  | className =>
    simp only [rules, List.forall_mem_cons]
    exact ⟨(sound_plain rfl _).andMove (by decide), by simp⟩
  | functionName => exact absurd rfl hm
  | variableName => exact List.forall_mem_cons.2 ⟨(sound_plain rfl _).andMove (by decide), sound_codeRules⟩
  | doubleQuoted => exact sound_doubleQuotedRules
  | «attribute» =>
    simp only [rules, List.forall_mem_cons]
    exact ⟨(sound_plain rfl _).andMove (by decide), (sound_plain rfl _).andMove (by decide), sound_plain rfl _,
      sound_codeRules⟩
  | attributeArguments => exact List.forall_mem_cons.2 ⟨(sound_plain rfl _).andMove (by decide), sound_codeRules⟩

end Rule

/-! ## The reader -/

/-- What holds of the stack of modes when some tokens have been read and a text is left: the name of a function is awaited on the
top of it or not at all, and if it is, a word that starts here is that name. -/
structure Ready (prior : List Token) (stack : List Mode) (t : Text) : Prop where
  nonempty : stack ≠ []
  below : .functionName ∉ stack.tail
  awaited : stack.head? = some .functionName →
    stack.tail ≠ [] ∧ (t.head?.any CodePoint.isWord = true → EndsWithFunction (codeWords prior))

namespace Ready

variable {prior : List Token} {m : Mode} {below : List Mode} {t : Text} {parts : List (TokenKind × Nat)} {move : Move}

theorem of_ne (hm : m ≠ .functionName) (hbelow : .functionName ∉ below) : Ready prior (m :: below) t := by
  refine ⟨List.cons_ne_nil m below, hbelow, ?_⟩
  intro hhead
  exact absurd (Option.some.inj hhead) hm

/-- A mode that is left lies on another one, in which no name of a function is awaited. -/
theorem of_pop (h : Ready prior (m :: below) t) {next : Mode} {rest : List Mode} (hbelow : below = next :: rest)
    (prior' : List Token) (t' : Text) : Ready prior' (next :: rest) t' := by
  have hnot := h.below
  rw [List.tail_cons, hbelow, List.mem_cons, not_or] at hnot
  exact .of_ne (Ne.symm hnot.1) hnot.2

end Ready

theorem exists_rule_of_firstCut {rs : List Rule} {t : Text} {cut : Cut} {move : Move} (h : firstCut rs t = some (cut, move)) :
    ∃ r ∈ rs, r.cut t = some cut ∧ r.move = move := by
  obtain ⟨r, hr, hcut⟩ := List.exists_of_findSome?_eq_some h
  obtain ⟨cut', hcut', heq⟩ := Option.map_eq_some_iff.1 hcut
  cases heq
  exact ⟨r, hr, hcut', rfl⟩

/-- What can be read where the name of a function is awaited: a method that PHP calls by itself, a name, or nothing. -/
theorem firstCut_functionName {t : Text} {cut : Cut} {move : Move}
    (h : firstCut (rules .functionName) t = some (cut, move)) :
    (∃ n, wordAmong magicMethods t = some n ∧ cut = .tokens [(.magicFunction, n)] ∧ move = .stay) ∨
      (∃ n, Scan.name t = some n ∧ cut = .tokens [(.functionName, n)] ∧ move = .pop) ∨
      cut = .tokens [] ∧ move = .pop := by
  obtain ⟨r, hr, hcut, rfl⟩ := exists_rule_of_firstCut h
  simp only [rules, List.mem_cons, List.not_mem_nil, or_false] at hr
  rcases hr with rfl | rfl | rfl
  · obtain ⟨n, hn, rfl⟩ := Option.map_eq_some_iff.1 hcut
    exact .inl ⟨n, hn, rfl, rfl⟩
  · obtain ⟨n, hn, rfl⟩ := Option.map_eq_some_iff.1 hcut
    exact .inr (.inl ⟨n, hn, rfl, rfl⟩)
  · cases hcut
    exact .inr (.inr ⟨rfl, rfl⟩)

theorem firstCut_functionName_ne_none (t : Text) : firstCut (rules .functionName) t ≠ none := by
  intro h
  have hempty := List.findSome?_eq_none_iff.1 h ⟨fun _ => some (.tokens []), .pop⟩ (by simp [rules])
  cases hempty

/-- No word goes on behind a method that PHP calls by itself. -/
theorem isWord_drop_of_wordAmong {words : List Text} {t : Text} {n : Nat} (h : wordAmong words t = some n) :
    (t.drop n).head?.any CodePoint.isWord = false := by
  rw [wordAmong, Option.ite_none_right_eq_some] at h
  have hdrop : (t.takeWhile CodePoint.isWord ++ t.dropWhile CodePoint.isWord).drop (t.takeWhile CodePoint.isWord).length =
      t.dropWhile CodePoint.isWord := List.drop_left
  rw [List.takeWhile_append_dropWhile, Option.some.inj h.2] at hdrop
  have hnot := List.head?_dropWhile_not CodePoint.isWord t
  rw [hdrop]
  cases hhead : (t.dropWhile CodePoint.isWord).head? with
  | none => rfl
  | some c => simpa [hhead] using hnot

theorem head?_take_of_ne_nil {t : Text} {n : Nat} (h : t.take n ≠ []) : (t.take n).head? = t.head? := by
  cases n with
  | zero => exact absurd List.take_zero h
  | succ n => cases t <;> rfl

namespace Ready

variable {prior : List Token} {m : Mode} {below : List Mode} {t : Text} {parts : List (TokenKind × Nat)} {move : Move}

/-- What is cut where the name of a function is awaited. -/
theorem cut_functionName (h : Ready prior (.functionName :: below) t)
    (hcut : firstCut (rules .functionName) t = some (.tokens parts, move)) (offset : Nat) :
    Lexical prior (slices offset parts t) ∧
      Ready (prior ++ slices offset parts t) (move.apply (.functionName :: below)) (t.drop (totalLength parts)) := by
  obtain ⟨hne, hname⟩ := h.awaited rfl
  obtain ⟨next, rest, hbelow⟩ := List.exists_cons_of_ne_nil hne
  rw [List.tail_cons] at hbelow
  have hpop (prior' : List Token) (t' : Text) : Ready prior' (Move.apply .pop (.functionName :: below)) t' := by
    have := h.of_pop hbelow prior' t'
    rwa [hbelow]
  rcases firstCut_functionName hcut with ⟨n, hn, hparts, rfl⟩ | ⟨n, hn, hparts, rfl⟩ | ⟨hparts, rfl⟩
  · cases hparts
    have hpieces : PiecesFit [(.magicFunction, n)] t :=
      ⟨fun _ _ _ => ⟨nofun, nofun, nofun, nofun, fun _ => Scan.take_of_wordAmong hn⟩, trivial⟩
    refine ⟨hpieces.lexical prior offset, List.cons_ne_nil _ _, h.below, ?_⟩
    intro _
    refine ⟨hne, ?_⟩
    intro hword
    cases (isWord_drop_of_wordAmong hn).symm.trans hword
  · cases hparts
    refine ⟨?_, hpop _ _⟩
    rcases slices_cons offset .functionName n [] t with ⟨-, heq⟩ | ⟨hpiece, heq⟩
    · rw [heq]
      exact .nil prior
    · rw [heq]
      refine .cons ⟨nofun, nofun, nofun, fun _ hword => hname ?_, nofun⟩ (.nil _)
      rwa [head?_take_of_ne_nil hpiece] at hword
  · cases hparts
    exact ⟨.nil prior, hpop _ _⟩

/-- In any other mode the stack of modes may change as the rule says. -/
theorem moved (h : Ready prior (m :: below) t) (hm : m ≠ .functionName) {prior' : List Token}
    (hpush : move = .push .functionName → EndsWithFunction (codeWords prior')) (t' : Text) :
    Ready prior' (move.apply (m :: below)) t' := by
  cases move with
  | stay => exact .of_ne hm h.below
  | push next =>
    by_cases hnext : next = .functionName
    · subst hnext
      refine ⟨List.cons_ne_nil _ _, ?_, ?_⟩
      · exact List.not_mem_cons_of_ne_of_not_mem (Ne.symm hm) h.below
      · intro _
        exact ⟨List.cons_ne_nil m below, fun _ => hpush rfl⟩
    · exact .of_ne hnext (List.not_mem_cons_of_ne_of_not_mem (Ne.symm hm) h.below)
  | pop =>
    cases hbelow : below with
    | nil => exact .of_ne hm (hbelow ▸ h.below)
    | cons next rest => exact h.of_pop hbelow prior' t'

/-- The tokens that a rule cuts fit, and the reader is ready for what comes after them. -/
theorem cut (h : Ready prior (m :: below) t) (hcut : firstCut (rules m) t = some (.tokens parts, move)) (offset : Nat) :
    Lexical prior (slices offset parts t) ∧
      Ready (prior ++ slices offset parts t) (move.apply (m :: below)) (t.drop (totalLength parts)) := by
  by_cases hm : m = .functionName
  · subst hm
    exact h.cut_functionName hcut offset
  · obtain ⟨r, hr, hrule, rfl⟩ := exists_rule_of_firstCut hcut
    have hsound := Rule.sound_rules hm r hr
    refine ⟨hsound.lexical t parts hrule prior offset, h.moved hm ?_ _⟩
    intro hpush
    obtain ⟨parts', hparts, hwords⟩ := hsound.naming hpush t _ hrule
    cases hparts
    rw [codeWords_append]
    exact (hwords offset).append _

/-- Code in a string is read where no name of a function is awaited, and leads to none. -/
theorem embedded (h : Ready prior (m :: below) t) {opening code closing : Nat} {hpos : 0 < opening}
    (hcut : firstCut (rules m) t = some (.embedded opening code closing hpos, move)) (prior' : List Token) (t' : Text) :
    Ready prior' (move.apply (m :: below)) t' := by
  by_cases hm : m = .functionName
  · subst hm
    rcases firstCut_functionName hcut with ⟨_, -, heq, -⟩ | ⟨_, -, heq, -⟩ | ⟨heq, -⟩ <;> cases heq
  · obtain ⟨r, hr, hrule, rfl⟩ := exists_rule_of_firstCut hcut
    refine h.moved hm ?_ t'
    intro hpush
    obtain ⟨parts, hparts, -⟩ := (Rule.sound_rules hm r hr).naming hpush t _ hrule
    cases hparts

end Ready

/-- All tokens that are read fit. -/
theorem lexical_tokensFrom (offset : Nat) (stack : List Mode) (t : Text) (prior : List Token) (h : Ready prior stack t) :
    Lexical prior (tokensFrom offset stack t) := by
  revert prior
  fun_induction tokensFrom offset stack t with
  | case1 offset stack =>
    intro prior _
    exact .nil prior
  | case2 offset stack c rest t parts move hcut n hn ih =>
    intro prior h
    obtain ⟨m, below, rfl⟩ := List.exists_cons_of_ne_nil h.nonempty
    obtain ⟨hlexical, hready⟩ := h.cut hcut offset
    exact hlexical.append (ih _ hready)
  | case3 offset c rest t parts move n hn head m below hcut ih =>
    intro prior h
    exact ih prior (h.of_pop rfl prior t)
  | case4 offset stack c rest t parts move hcut n hn hstack ih =>
    intro prior h
    refine .cons (fitsAnywhere_plain rfl _ prior offset) (ih _ ⟨h.nonempty, h.below, ?_⟩)
    intro hhead
    obtain ⟨m, below, rfl⟩ := List.exists_cons_of_ne_nil h.nonempty
    obtain ⟨next, below', hbelow⟩ := List.exists_cons_of_ne_nil (h.awaited hhead).1
    exact absurd (congrArg (m :: ·) hbelow) (hstack m next below')
  | case5 offset stack c rest t opening code closing hpos move hcut afterOpening ihcode ihrest =>
    intro prior h
    obtain ⟨m, below, rfl⟩ := List.exists_cons_of_ne_nil h.nonempty
    have hdelimiter (n : Nat) (prior : List Token) (offset : Nat) (t : Text) :
        Lexical prior (slices offset [(.interpolation, n)] t) :=
      (piecesFit_plain (by simp; decide) t).lexical prior offset
    exact (((hdelimiter _ _ _ _).append (ihcode _ (.of_ne (by decide) (by decide)))).append (hdelimiter _ _ _ _)).append
      (ihrest _ (h.embedded hcut _ _))
  | case6 offset stack rest t hcut ih =>
    intro prior h
    exact .cons (fitsAnywhere_spacing rfl (by decide) prior offset) (ih _ (.of_ne (by decide) (by decide)))
  | case7 offset stack c rest t hcut hc ih =>
    intro prior h
    refine .cons (fitsAnywhere_plain rfl _ prior offset) (ih _ ⟨h.nonempty, h.below, ?_⟩)
    intro hhead
    obtain ⟨m, below, rfl⟩ := List.exists_cons_of_ne_nil h.nonempty
    obtain rfl := Option.some.inj hhead
    exact absurd hcut (firstCut_functionName_ne_none _)

/-- A way to cut sources into tokens that tile them and whose kinds can be relied on. -/
structure Lexer extends Tokenizer where
  lexical : ∀ t, Lexical [] (tokens t)

theorem Lexer.fits (php : Lexer) {t : Text} {before after : List Token} {k : Token}
    (h : php.tokens t = before ++ k :: after) : Fits before k := by
  have hlexical := php.lexical t
  rw [h] at hlexical
  exact hlexical.fits

/-- The lexer of this library. -/
def lexer : Lexer := ⟨tokenizer, fun t => lexical_tokensFrom 0 [.html] t [] (.of_ne (by decide) (by decide))⟩

end SourceTidy.Php
