import RuleDesk.Command.Token
import RuleDesk.Proofs.Text.Characters
import Mathlib.Data.List.Basic

/-!
# Words and the ends of a line

Blanks before and behind a line do not matter to its words unless what stands before the
last ones is unfinished: an open span, or a backslash that still waits for its character.
-/
namespace RuleDesk
namespace Token

/-- The span that is open behind a character which is no backslash. -/
def spanAfter (span? : Option Char) (c : Char) : Option Char :=
  if isQuote c then
    match span? with
    | none => some c
    | some q => if q = c then none else some q
  else span?

/-- Reading these characters, from inside the span opened by `span?`, ends inside a span or
behind a backslash that waits for its character. -/
def endsOpen (span? : Option Char) : List Char → Bool
  | [] => span?.isSome
  | ['\\'] => true
  | '\\' :: _ :: rest => endsOpen span? rest
  | c :: rest => endsOpen (spanAfter span? c) rest

variable {span? : Option Char} {word cs blanks : List Char}

theorem scan_cons {c : Char} (hc : c ≠ '\\') (word rest : List Char) :
    scan span? word (c :: rest) = if isQuote c then
      match span? with
      | none => scan (some c) word rest
      | some q => if q = c then scan none word rest else scan (some q) (c :: word) rest
    else if isBlank c && span?.isNone then emit word (scan none [] rest)
    else scan span? (c :: word) rest := by
  have hlast : c = '\\' → rest = [] → False := fun h _ => hc h
  have hnext : ∀ d r, c = '\\' → rest = d :: r → False := fun _ _ h _ => hc h
  cases span? with
  | none => exact scan.eq_4 _ _ _ hlast hnext
  | some q => exact scan.eq_5 _ _ _ q hlast hnext

theorem endsOpen_cons {c : Char} (hc : c ≠ '\\') (rest : List Char) :
    endsOpen span? (c :: rest) = endsOpen (spanAfter span? c) rest :=
  endsOpen.eq_4 _ _ _ (fun h _ => hc h) fun _ _ h _ => hc h

theorem emit_injective (word : List Char) : Function.Injective (emit word) := by
  intro later later' h
  unfold emit at h
  split at h
  · exact h
  · exact (List.cons.inj h).2

/-- A character at the end of the word makes another word of it. -/
theorem emit_append_eq_iff (more word : List Char) :
    emit (more ++ word) [] = emit word [] ↔ more = [] := by
  constructor
  · intro h
    by_contra hmore
    have hlonger : emit (more ++ word) [] = [String.ofList (more ++ word).reverse] :=
      if_neg (by simp [hmore])
    rw [hlonger] at h
    by_cases hword : word = []
    · rw [hword] at h
      cases h
    · have hshorter : emit word [] = [String.ofList word.reverse] := if_neg (by simp [hword])
      rw [hshorter] at h
      have hsame := String.ofList_inj.mp (List.cons.inj h).1
      have hlength := congrArg List.length hsame
      have hpos := List.length_pos_iff.mpr hmore
      simp only [List.length_reverse, List.length_append] at hlength
      omega
  · rintro rfl
    rfl

/-- Outside of spans a blank cuts. -/
theorem scan_blank {c : Char} (h : isBlank c = true) (word rest : List Char) :
    scan none word (c :: rest) = emit word (scan none [] rest) := by
  rw [scan_cons (ne_backslash_of_blank h)]
  simp [not_quote_of_blank h, h]

theorem cuts_iff {c : Char} :
    (isBlank c && span?.isNone) = true ↔ isBlank c = true ∧ span? = none := by
  simp

/-- A blank opens and closes no span. -/
theorem spanAfter_blank {c : Char} (h : isBlank c = true) (span? : Option Char) :
    spanAfter span? c = span? :=
  if_neg (by simp [not_quote_of_blank h])

/-- A character that does not cut goes into the word, unless it is a quote that opens or
closes a span. -/
theorem scan_kept {c : Char} (hc : c ≠ '\\') (hkept : ¬ (isBlank c && span?.isNone) = true)
    (word rest : List Char) :
    scan span? word (c :: rest) =
      scan (spanAfter span? c) (if spanAfter span? c = span? then c :: word else word) rest := by
  rw [scan_cons hc]
  by_cases hquote : isQuote c = true
  · cases span? with
    | none => simp [spanAfter, hquote]
    | some q =>
        by_cases hsame : q = c
        · simp [spanAfter, hquote, hsame]
        · simp [spanAfter, hquote, hsame]
  · simp [spanAfter, hquote, hkept]

/-- A character goes into the word or is dropped, or it cuts the word off. Reading goes on
in the span behind it. -/
theorem scan_step {c : Char} (hc : c ≠ '\\') (span? : Option Char) (word : List Char) :
    (∃ taken, ∀ rest, scan span? word (c :: rest) =
        scan (spanAfter span? c) (taken ++ word) rest) ∨
      ∀ rest, scan span? word (c :: rest) = emit word (scan (spanAfter span? c) [] rest) := by
  by_cases hcut : (isBlank c && span?.isNone) = true
  · obtain ⟨hblank, rfl⟩ := cuts_iff.mp hcut
    exact .inr fun rest => by rw [scan_blank hblank, spanAfter_blank hblank]
  · refine .inl ⟨if spanAfter span? c = span? then [c] else [], fun rest => ?_⟩
    rw [scan_kept hc hcut]
    split <;> rfl

/-- Inside a span a blank belongs to the word. -/
theorem scan_blank_span {c : Char} (h : isBlank c = true) (q : Char) (word rest : List Char) :
    scan (some q) word (c :: rest) = scan (some q) (c :: word) rest := by
  rw [scan_kept (ne_backslash_of_blank h) (by simp), spanAfter_blank h, if_pos rfl]

theorem scan_blanks_append (h : ∀ c ∈ blanks, isBlank c = true) (rest : List Char) :
    scan none [] (blanks ++ rest) = scan none [] rest := by
  induction blanks with
  | nil => rfl
  | cons c blanks ih =>
      obtain ⟨hc, hrest⟩ := List.forall_mem_cons.mp h
      rw [List.cons_append, scan_blank hc, ih hrest]
      rfl

theorem scan_blanks (h : ∀ c ∈ blanks, isBlank c = true) (word : List Char) :
    scan none word blanks = emit word [] := by
  cases blanks with
  | nil => rfl
  | cons c blanks =>
      obtain ⟨hc, hrest⟩ := List.forall_mem_cons.mp h
      have hnothing := scan_blanks_append hrest []
      rw [List.append_nil] at hnothing
      rw [scan_blank hc, hnothing]
      rfl

theorem scan_blanks_span (h : ∀ c ∈ blanks, isBlank c = true) (q : Char) (word : List Char) :
    scan (some q) word blanks = emit (blanks.reverse ++ word) [] := by
  induction blanks generalizing word with
  | nil => rfl
  | cons c blanks ih =>
      obtain ⟨hc, hrest⟩ := List.forall_mem_cons.mp h
      rw [scan_blank_span hc, ih hrest]
      simp

/-- In the recursion of `endsOpen` a character that is no escape is no backslash. -/
theorem ne_backslash_of_not_escape {c : Char} {rest : List Char}
    (hlast : c = '\\' → rest = [] → False)
    (hnext : ∀ d later, c = '\\' → rest = d :: later → False) : c ≠ '\\' := by
  rintro rfl
  cases rest with
  | nil => exact hlast rfl rfl
  | cons d rest => exact hnext d rest rfl rfl

/-- Blanks at the end change the words exactly if the characters before them end open. The
induction is on these characters, a backslash together with the one behind it. -/
theorem scan_append_blanks_iff (h : ∀ c ∈ blanks, isBlank c = true) :
    scan span? word (cs ++ blanks) = scan span? word cs ↔
      blanks = [] ∨ endsOpen span? cs = false := by
  induction span?, cs using endsOpen.induct generalizing word with
  | case1 span? =>
      cases span? with
      | none =>
          rw [List.nil_append, scan_blanks h]
          simp [scan, endsOpen]
      | some q =>
          rw [List.nil_append, scan_blanks_span h]
          simp [scan, endsOpen, emit_append_eq_iff]
  | case2 span? =>
      cases blanks with
      | nil => simp
      | cons b blanks =>
          obtain ⟨-, hrest⟩ := List.forall_mem_cons.mp h
          have hother : scan span? (b :: word) blanks ≠ emit word [] := by
            cases span? with
            | none =>
                rw [scan_blanks hrest]
                exact fun heq => absurd ((emit_append_eq_iff [b] word).mp heq) (by simp)
            | some q =>
                rw [scan_blanks_span hrest]
                intro heq
                rw [List.append_cons] at heq
                exact absurd ((emit_append_eq_iff (blanks.reverse ++ [b]) word).mp heq) (by simp)
          simpa [scan, endsOpen] using hother
  | case3 span? d rest ih =>
      rw [endsOpen]
      exact ih
  | case4 span? c rest hlast hnext ih =>
      have hc := ne_backslash_of_not_escape hlast hnext
      rw [endsOpen_cons hc, List.cons_append]
      rcases scan_step hc span? word with ⟨taken, hstep⟩ | hcut
      · rw [hstep, hstep]
        exact ih
      · rw [hcut, hcut, (emit_injective word).eq_iff]
        exact ih

theorem emit_of_ne_nil (h : word ≠ []) (later : List String) :
    emit word later = String.ofList word.reverse :: later :=
  if_neg (by simpa using h)

/-- A word that has begun comes first, with all that was read of it. -/
theorem scan_head (h : word ≠ []) :
    ∃ first later, scan span? word cs = first :: later ∧ word.reverse <+: first.toList := by
  induction span?, cs using endsOpen.induct generalizing word with
  | case1 span? => exact ⟨_, _, emit_of_ne_nil h [], by simp⟩
  | case2 span? => exact ⟨_, _, emit_of_ne_nil h [], by simp⟩
  | case3 span? d rest ih =>
      obtain ⟨first, later, hscan, hprefix⟩ := @ih (d :: word) (List.cons_ne_nil d word)
      rw [List.reverse_cons] at hprefix
      exact ⟨first, later, hscan, (List.prefix_append _ _).trans hprefix⟩
  | case4 span? c rest hlast hnext ih =>
      have hc := ne_backslash_of_not_escape hlast hnext
      rcases scan_step hc span? word with ⟨taken, hstep⟩ | hcut
      · obtain ⟨first, later, hscan, hprefix⟩ := @ih (taken ++ word) (by simp [h])
        rw [List.reverse_append] at hprefix
        exact ⟨first, later, (hstep rest).trans hscan, (List.prefix_append _ _).trans hprefix⟩
      · exact ⟨_, _, (hcut rest).trans (emit_of_ne_nil h _), by simp⟩

theorem mem_emit {word : List Char} {later : List String} {w : String} (h : w ∈ emit word later) :
    w ∈ later ∨ w ≠ "" := by
  by_cases hword : word = []
  · rw [hword] at h
    exact .inl h
  · rw [emit_of_ne_nil hword] at h
    rcases List.mem_cons.mp h with rfl | hlater
    · exact .inr (by simpa using hword)
    · exact .inl hlater

/-- No word is without characters. -/
theorem ne_empty_of_mem_scan {w : String} (h : w ∈ scan span? word cs) : w ≠ "" := by
  induction span?, cs using endsOpen.induct generalizing word with
  | case1 span? => exact (mem_emit h).resolve_left List.not_mem_nil
  | case2 span? => exact (mem_emit h).resolve_left List.not_mem_nil
  | case3 span? d rest ih => exact ih h
  | case4 span? c rest hlast hnext ih =>
      have hc := ne_backslash_of_not_escape hlast hnext
      rcases scan_step hc span? word with ⟨taken, hstep⟩ | hcut
      · rw [hstep] at h
        exact ih h
      · rw [hcut] at h
        rcases mem_emit h with hlater | hne
        · exact ih hlater
        · exact hne

end Token

theorem ne_empty_of_mem_tokenize {line w : String} (h : w ∈ tokenize line) : w ≠ "" :=
  Token.ne_empty_of_mem_scan h

namespace Text

/-- A text is what is left when it is trimmed, with blanks around it. -/
theorem trimChars_spec (s : List Char) : ∃ lead trail, s = lead ++ (trimChars s ++ trail) ∧
    (∀ c ∈ lead, isBlank c = true) ∧ (∀ c ∈ trail, isBlank c = true) ∧
    ∀ c, (trimChars s).getLast? = some c → isBlank c = false := by
  have hlead := @List.takeWhile_append_dropWhile _ isBlank s
  have htrail := @List.takeWhile_append_dropWhile _ isBlank (s.dropWhile isBlank).reverse
  refine ⟨s.takeWhile isBlank, ((s.dropWhile isBlank).reverse.takeWhile isBlank).reverse, ?_, ?_,
    ?_, ?_⟩
  · rw [trimChars, ← List.reverse_append, htrail, List.reverse_reverse, hlead]
  · exact fun c hc => List.all_eq_true.mp List.all_takeWhile c hc
  · exact fun c hc => List.all_eq_true.mp List.all_takeWhile c (List.mem_reverse.mp hc)
  · intro c hc
    rw [trimChars, List.getLast?_reverse] at hc
    have hhead := List.head?_dropWhile_not isBlank (s.dropWhile isBlank).reverse
    rw [hc] at hhead
    simpa using hhead

end Text

/-- The line ends with a blank that belongs to its last word. -/
def endsInOwnBlank (line : String) : Bool :=
  line.toList.getLast?.any isBlank && Token.endsOpen none (Text.trimChars line.toList)

/-- The words of a line are read from what trimming leaves of it and the blanks behind. -/
theorem tokenize_eq (line : String) : ∃ blanks, (∀ c ∈ blanks, isBlank c = true) ∧
    tokenize line = Token.scan none [] ((Text.trim line).toList ++ blanks) := by
  obtain ⟨lead, trail, hline, hlead, htrail, -⟩ := Text.trimChars_spec line.toList
  refine ⟨trail, htrail, ?_⟩
  rw [tokenize, Text.trim, String.toList_ofList]
  exact (congrArg (Token.scan none []) hline).trans (Token.scan_blanks_append hlead _)

/-- Trimming keeps the words of a line unless it ends with a blank of its last word. -/
theorem tokenize_trim_iff (line : String) :
    tokenize (Text.trim line) = tokenize line ↔ endsInOwnBlank line = false := by
  obtain ⟨lead, trail, hline, hlead, htrail, hlast⟩ := Text.trimChars_spec line.toList
  have hwords : tokenize line = Token.scan none [] (Text.trimChars line.toList ++ trail) := by
    rw [tokenize, hline, Token.scan_blanks_append hlead, ← hline]
  rw [hwords, tokenize, Text.trim, String.toList_ofList, eq_comm,
    Token.scan_append_blanks_iff htrail, endsInOwnBlank]
  cases hopen : Token.endsOpen none (Text.trimChars line.toList) with
  | false => simp
  | true =>
      have hcore : Text.trimChars line.toList ≠ [] := by
        intro hnil
        rw [hnil] at hopen
        cases hopen
      rcases List.eq_nil_or_concat trail with rfl | ⟨front, last, rfl⟩
      · have hend : line.toList.getLast? = (Text.trimChars line.toList).getLast? := by
          rw [List.append_nil] at hline
          exact (congrArg List.getLast? hline).trans (List.getLast?_append_of_ne_nil _ hcore)
        obtain ⟨c, hc⟩ := Option.ne_none_iff_exists'.mp (mt List.getLast?_eq_none_iff.mp hcore)
        simp [hend, hc, hlast c hc]
      · have hend : line.toList.getLast? = some last :=
          (congrArg List.getLast? hline).trans (by simp)
        have hblank : isBlank last = true := htrail last (by simp)
        simp [hend, hblank]

end RuleDesk
