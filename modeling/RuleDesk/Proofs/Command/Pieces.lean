import RuleDesk.Proofs.Command.Words
import Mathlib.Data.List.SplitBy

/-!
# The pieces of a line

A line is cut at its longest runs of blanks that stand outside of spans and behind no
backslash that waits. Each piece between them stands for its characters without the quotes
that open and close spans and without the backslashes that make characters literal. The
words of the line are what its pieces stand for, where that is anything.
-/
namespace RuleDesk

section Runs

variable {α β : Type} {cut : α → Bool}

/-- What stands between the longest runs of elements that cut. -/
def between (cut : α → Bool) (l : List α) : List (List α) :=
  (l.splitBy fun a b => cut a == cut b).filter fun run => !run.any cut

theorem mem_between {l piece : List α} (h : piece ∈ between cut l) :
    piece ≠ [] ∧ ∀ a ∈ piece, a ∈ l := by
  have hrun := (List.mem_filter.mp h).1
  refine ⟨List.ne_nil_of_mem_splitBy hrun, fun a ha => ?_⟩
  have hflat := List.mem_flatten.mpr ⟨piece, hrun, ha⟩
  rwa [List.flatten_splitBy] at hflat

/-- A list begins with a longest run of elements that cut, or that do not. -/
theorem exists_longest_run (cut : α → Bool) {l : List α} (hl : l ≠ []) :
    ∃ kind run rest, l = run ++ rest ∧ run ≠ [] ∧ (∀ a ∈ run, cut a = kind) ∧
      ∀ a ∈ rest.head?, cut a = !kind := by
  cases l with
  | nil => exact absurd rfl hl
  | cons a l =>
      refine ⟨cut a, (a :: l).takeWhile (cut · == cut a), (a :: l).dropWhile (cut · == cut a),
        List.takeWhile_append_dropWhile.symm, by simp, ?_, ?_⟩
      · intro b hb
        exact eq_of_beq (List.all_eq_true.mp List.all_takeWhile b hb)
      · intro b hb
        have hhead := List.head?_dropWhile_not (cut · == cut a) (a :: l)
        rw [Option.mem_def.mp hb] at hhead
        simpa [← Bool.eq_not] using hhead

theorem splitBy_longest_run {kind : Bool} {run rest : List α} (hne : run ≠ [])
    (hrun : ∀ a ∈ run, cut a = kind) (hrest : ∀ a ∈ rest.head?, cut a = !kind) :
    (run ++ rest).splitBy (fun a b => cut a == cut b) =
      run :: rest.splitBy fun a b => cut a == cut b := by
  have hchain : run.IsChain fun a b => (cut a == cut b) = true := by
    apply List.Pairwise.isChain
    apply List.pairwise_of_forall_mem_list
    intro a ha b hb
    simp [hrun a ha, hrun b hb]
  have hborder : ∀ a ∈ run.getLast?, ∀ b ∈ rest.head?, (cut a == cut b) = false := by
    intro a ha b hb
    simp [hrun a (List.mem_of_getLast? ha), hrest b hb]
  rw [List.splitBy_append hborder, List.splitBy_of_isChain hne hchain]
  rfl

/-- Elements that cut have only empty pieces around them. -/
theorem splitOnP_append_cuts {run : List α} (hrun : ∀ a ∈ run, cut a = true) (rest : List α) :
    (run ++ rest).splitOnP cut = List.replicate run.length [] ++ rest.splitOnP cut := by
  induction run with
  | nil => rfl
  | cons a run ih =>
      obtain ⟨ha, hothers⟩ := List.forall_mem_cons.mp hrun
      rw [List.cons_append, List.splitOnP_cons_eq_if_modifyHead, if_pos ha, ih hothers]
      rfl

/-- Cutting at every element that cuts leaves the same pieces, and empty ones inside the
runs. The induction takes one longest run at a time. -/
theorem between_eq_splitOnP (cut : α → Bool) (l : List α) :
    between cut l = (l.splitOnP cut).filter fun piece => !piece.isEmpty := by
  by_cases hl : l = []
  · subst hl
    simp [between]
  obtain ⟨kind, run, rest, rfl, hne, hrun, hrest⟩ := exists_longest_run cut hl
  have hpos := List.length_pos_iff.mpr hne
  have hshorter : rest.length < (run ++ rest).length := by
    rw [List.length_append]
    omega
  have ih := between_eq_splitOnP cut rest
  rw [between] at ih ⊢
  rw [splitBy_longest_run hne hrun hrest, List.filter_cons, ih]
  cases kind with
  | true =>
      obtain ⟨a, ha⟩ := List.exists_mem_of_ne_nil run hne
      have hcuts : run.any cut = true := List.any_eq_true.mpr ⟨a, ha, hrun a ha⟩
      simp [hcuts, splitOnP_append_cuts hrun]
  | false =>
      have hkeeps : run.any cut = false := by simpa [List.any_eq_false] using hrun
      have hfull : run.isEmpty = false := by simpa using hne
      cases rest with
      | nil => simp [List.splitOnP_eq_singleton hrun, hkeeps, hfull]
      | cons b rest =>
          have hb : cut b = true := hrest b rfl
          rw [List.splitOnP_append_cons_of_forall_mem hrun b hb,
            List.splitOnP_cons_eq_if_modifyHead, if_pos hb]
          simp [hkeeps, hfull]
termination_by l.length

theorem splitOnP_map (f : β → α) (l : List β) :
    (l.map f).splitOnP cut = (l.splitOnP (cut ∘ f)).map (List.map f) := by
  induction l with
  | nil => simp
  | cons a l ih =>
      obtain ⟨piece, later, hsplit⟩ :=
        List.exists_cons_of_ne_nil (List.splitOnP_ne_nil (cut ∘ f) l)
      rw [List.map_cons, List.splitOnP_cons_eq_if_modifyHead, ih,
        List.splitOnP_cons_eq_if_modifyHead, hsplit]
      by_cases ha : cut (f a) = true
      · simp [ha]
      · simp [ha]

/-- Mapping leaves no piece empty that was not. -/
theorem filter_pieces_map (f : β → α) (pieces : List (List β)) :
    (pieces.map (List.map f)).filter (fun piece => !piece.isEmpty) =
      (pieces.filter fun piece => !piece.isEmpty).map (List.map f) := by
  rw [List.filter_map]
  congr 2
  funext piece
  simp

theorem between_map (f : β → α) (l : List β) :
    between cut (l.map f) = (between (cut ∘ f) l).map (List.map f) := by
  rw [between_eq_splitOnP, between_eq_splitOnP, splitOnP_map, filter_pieces_map]

end Runs

namespace Token

/-- The characters of a line, each with whether it cuts the line: it is blank, and what
stands before it ends neither inside a span nor behind a backslash that waits. -/
def marked (span? : Option Char) (line : List Char) : List (Char × Bool) :=
  line.mapIdx fun i c => (c, isBlank c && !endsOpen span? (line.take i))

/-- The pieces of a line. -/
def pieces (line : List Char) : List (List Char) :=
  (between Prod.snd (marked none line)).map (List.map Prod.fst)

/-- What a piece stands for, read from inside the span opened by `span?`: a quote that opens
or closes a span is dropped, and so is a backslash, whose character is literal. -/
def decode (span? : Option Char) : List Char → List Char
  | [] => []
  | ['\\'] => []
  | '\\' :: c :: rest => c :: decode span? rest
  | c :: rest =>
    if spanAfter span? c = span? then c :: decode span? rest else decode (spanAfter span? c) rest

/-- The words that pieces stand for. -/
def spelled (pieces : List (List Char)) : List String :=
  (pieces.map fun piece => String.ofList (decode none piece)).filter (· ≠ "")

variable {span? : Option Char} {word cs : List Char}

theorem marked_nil : marked span? [] = [] := rfl

theorem marked_backslash : marked span? ['\\'] = [('\\', false)] := by
  simp [marked, isBlank]

theorem marked_escape (c : Char) (rest : List Char) :
    marked span? ('\\' :: c :: rest) = ('\\', false) :: (c, false) :: marked span? rest := by
  simp [marked, isBlank, List.mapIdx_cons, endsOpen]

theorem marked_cons {c : Char} (hc : c ≠ '\\') (rest : List Char) :
    marked span? (c :: rest) =
      (c, isBlank c && span?.isNone) :: marked (spanAfter span? c) rest := by
  simp [marked, List.mapIdx_cons, endsOpen_cons hc, endsOpen]

theorem decode_cons {c : Char} (hc : c ≠ '\\') (rest : List Char) :
    decode span? (c :: rest) =
      if spanAfter span? c = span? then c :: decode span? rest
      else decode (spanAfter span? c) rest :=
  decode.eq_4 _ _ _ (fun h _ => hc h) fun _ _ h _ => hc h

theorem spelled_cons (piece : List Char) (later : List (List Char)) :
    spelled (piece :: later) = emit (decode none piece).reverse (spelled later) := by
  by_cases h : decode none piece = []
  · simp [spelled, emit, h]
  · simp [spelled, emit, h]

/-- Pieces without characters stand for nothing. -/
theorem spelled_filter (pieces : List (List Char)) :
    spelled (pieces.filter fun piece => !piece.isEmpty) = spelled pieces := by
  induction pieces with
  | nil => rfl
  | cons piece later ih =>
      cases piece with
      | nil =>
          rw [spelled_cons, ← ih]
          rfl
      | cons c piece =>
          rw [List.filter_cons_of_pos (by rfl), spelled_cons, spelled_cons, ih]

/-- The word being read goes on with what the first piece stands for, and the other pieces
follow. The induction is on the characters, a backslash together with the one behind it. -/
theorem scan_eq_spelled (span? : Option Char) (word cs : List Char) :
    ∃ piece later, (marked span? cs).splitOnP Prod.snd = piece :: later ∧
      scan span? word cs = emit ((decode span? (piece.map Prod.fst)).reverse ++ word)
        (spelled (later.map (List.map Prod.fst))) := by
  induction span?, cs using endsOpen.induct generalizing word with
  | case1 span? => exact ⟨[], [], by simp [marked_nil], by simp [scan, decode, spelled]⟩
  | case2 span? =>
      refine ⟨[('\\', false)], [], ?_, by simp [scan, decode, spelled]⟩
      rw [marked_backslash, List.splitOnP_cons_eq_if_modifyHead]
      rfl
  | case3 span? c rest ih =>
      obtain ⟨piece, later, hsplit, hscan⟩ := ih (c :: word)
      refine ⟨('\\', false) :: (c, false) :: piece, later, ?_, ?_⟩
      · rw [marked_escape, List.splitOnP_cons_eq_if_modifyHead,
          List.splitOnP_cons_eq_if_modifyHead, hsplit]
        rfl
      · rw [scan, hscan]
        simp [decode]
  | case4 span? c rest hlast hnext ih =>
      have hc := ne_backslash_of_not_escape hlast hnext
      rw [marked_cons hc, List.splitOnP_cons_eq_if_modifyHead]
      by_cases hcut : (isBlank c && span?.isNone) = true
      · -- the span is closed here, so the rest is read as a line of its own
        obtain ⟨hblank, rfl⟩ := cuts_iff.mp hcut
        obtain ⟨piece, later, hsplit, hscan⟩ := ih []
        rw [spanAfter_blank hblank] at hsplit hscan ⊢
        rw [List.append_nil] at hscan
        refine ⟨[], piece :: later, by rw [if_pos hcut, hsplit], ?_⟩
        rw [scan_blank hblank, hscan, List.map_cons, spelled_cons]
        simp [decode]
      · obtain ⟨piece, later, hsplit, hscan⟩ :=
          ih (if spanAfter span? c = span? then c :: word else word)
        refine ⟨(c, isBlank c && span?.isNone) :: piece, later, ?_, ?_⟩
        · rw [if_neg hcut, hsplit]
          rfl
        · rw [scan_kept hc hcut, hscan, List.map_cons, decode_cons hc]
          split
          · next hspan => simp [hspan]
          · rfl

/-- The words of a line are what its pieces stand for. -/
theorem scan_pieces (cs : List Char) : scan none [] cs = spelled (pieces cs) := by
  obtain ⟨piece, later, hsplit, hscan⟩ := scan_eq_spelled none [] cs
  have hpieces : pieces cs =
      ((piece :: later).map (List.map Prod.fst)).filter fun piece => !piece.isEmpty := by
    rw [pieces, between_eq_splitOnP, hsplit, filter_pieces_map]
  rw [hpieces, spelled_filter, List.map_cons, spelled_cons, hscan, List.append_nil]

theorem marked_plain (h : ∀ c ∈ cs, c ≠ '\\' ∧ isQuote c = false) :
    marked none cs = cs.map fun c => (c, isBlank c) := by
  induction cs with
  | nil => rfl
  | cons c cs ih =>
      obtain ⟨⟨hslash, hquote⟩, hothers⟩ := List.forall_mem_cons.mp h
      have hspan : spanAfter none c = none := if_neg (by simp [hquote])
      rw [marked_cons hslash, hspan, ih hothers]
      simp

theorem decode_plain (h : ∀ c ∈ cs, c ≠ '\\' ∧ isQuote c = false) : decode none cs = cs := by
  induction cs with
  | nil => rfl
  | cons c cs ih =>
      obtain ⟨⟨hslash, hquote⟩, hothers⟩ := List.forall_mem_cons.mp h
      have hspan : spanAfter none c = none := if_neg (by simp [hquote])
      rw [decode_cons hslash, if_pos hspan, ih hothers]

/-- The pieces of such a line stand for themselves. -/
theorem spelled_plain (h : ∀ c ∈ cs, c ≠ '\\' ∧ isQuote c = false) :
    spelled (pieces cs) = (between isBlank cs).map String.ofList := by
  have hpieces : pieces cs = between isBlank cs := by
    rw [pieces, marked_plain h, between_map, List.map_map]
    simp [Function.comp_def]
  have hdecode : ∀ piece ∈ between isBlank cs,
      String.ofList (decode none piece) = String.ofList piece := by
    intro piece hpiece
    rw [decode_plain fun c hc => h c ((mem_between hpiece).2 c hc)]
  rw [hpieces, spelled, List.map_congr_left hdecode, List.filter_eq_self]
  intro w hw
  obtain ⟨piece, hpiece, rfl⟩ := List.mem_map.mp hw
  simpa using (mem_between hpiece).1

end Token

/-- The words of a line are what its pieces stand for: the line is cut at the longest runs
of blanks that are neither literal nor inside a span, the pieces are decoded, and those that
stand for nothing are left out. So no word is empty, and without quotes and backslashes the
words are what stands between blanks. -/
theorem tokenize_eq_decoded_pieces (line : String) :
    tokenize line =
        ((Token.pieces line.toList).map fun piece =>
          String.ofList (Token.decode none piece)).filter (· ≠ "") ∧
      (∀ w ∈ tokenize line, w ≠ "") ∧
      ((∀ c ∈ line.toList, c ≠ '\\' ∧ isQuote c = false) →
        tokenize line = (between isBlank line.toList).map String.ofList) := by
  have hwords : tokenize line = Token.spelled (Token.pieces line.toList) :=
    Token.scan_pieces line.toList
  refine ⟨hwords, fun w hw => ne_empty_of_mem_tokenize hw, fun hplain => ?_⟩
  rw [hwords, Token.spelled_plain hplain]

/-- Spans that are glued to words, an empty span between words, and a quote that is literal. -/
theorem tokenize_eq_decoded_pieces_glued_spans :
    Token.pieces "  a\" \"b  '' \\\" c".toList =
        ["a\" \"b".toList, "''".toList, "\\\"".toList, "c".toList] ∧
      tokenize "  a\" \"b  '' \\\" c" = ["a b", "\"", "c"] ∧
      (∀ c ∈ " a  b".toList, c ≠ '\\' ∧ isQuote c = false) ∧
      tokenize " a  b" = ["a", "b"] := by
  have hpieces : Token.pieces "  a\" \"b  '' \\\" c".toList =
      ["a\" \"b".toList, "''".toList, "\\\"".toList, "c".toList] := by decide
  have hplain : ∀ c ∈ " a  b".toList, c ≠ '\\' ∧ isQuote c = false := by
    have hall : (" a  b".toList.all fun c => c != '\\' && !isQuote c) = true := by decide
    simpa only [List.all_eq_true, Bool.and_eq_true, bne_iff_ne, Bool.not_eq_true'] using hall
  refine ⟨hpieces, ?_, hplain, ?_⟩
  · rw [(tokenize_eq_decoded_pieces _).1, hpieces]
    decide
  · rw [(tokenize_eq_decoded_pieces _).2.2 hplain]
    decide

end RuleDesk
