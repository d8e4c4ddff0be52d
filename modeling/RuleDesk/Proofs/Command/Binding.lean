import RuleDesk.Command.Signature
import RuleDesk.Proofs.Results

/-!
# Words bound to parameters

A parameter list is a signature if its names are distinct and only the last parameter is
variadic. The words of a line fit it if every required parameter has a word and every word
has a parameter. Each parameter is then found under its name, bound to its own word, to
what stands in for it, or to all the words that are left; and the words can be read off
from the parameters again.
-/
namespace RuleDesk

namespace Parameter

/-- Only the last parameter may be variadic. -/
def VariadicLast (params : List Parameter) : Prop :=
  ∀ p ∈ params.dropLast, p.kind ≠ .variadic

section VariadicLast

variable {p : Parameter} {rest : List Parameter}

theorem variadicLast_cons :
    VariadicLast (p :: rest) ↔ (p.kind = .variadic → rest = []) ∧ VariadicLast rest := by
  cases rest with
  | nil => simp [VariadicLast]
  | cons q rest => simp [VariadicLast]

theorem VariadicLast.getLast? {params : List Parameter} (h : VariadicLast params)
    (hp : p ∈ params) (hkind : p.kind = .variadic) : params.getLast? = some p := by
  have hne := List.ne_nil_of_mem hp
  rw [← List.dropLast_concat_getLast hne] at hp
  rcases List.mem_append.mp hp with hearly | hend
  · exact absurd hkind (h p hearly)
  · rw [List.getLast?_eq_some_getLast hne, List.mem_singleton.mp hend]

end VariadicLast

theorem fault?_eq_none_iff (earlier : List String) (params : List Parameter) :
    fault? earlier params = none ↔
      (∀ p ∈ params, p.name ∉ earlier) ∧ (params.map name).Nodup ∧ VariadicLast params := by
  induction params generalizing earlier with
  | nil => simp [fault?, VariadicLast]
  | cons p rest ih =>
      rw [fault?, List.forall_mem_cons, List.map_cons, List.nodup_cons, variadicLast_cons]
      by_cases hname : p.name ∈ earlier
      · simp [hname]
      by_cases hlast : p.kind = .variadic ∧ rest ≠ []
      · simp [hname, hlast]
      · have hvariadic : p.kind = .variadic → rest = [] := by simpa using hlast
        have hsound : (decide (p.kind = .variadic) && !rest.isEmpty) = false := by
          simpa using hvariadic
        have hfresh : (∀ q ∈ rest, q.name ∉ p.name :: earlier) ↔
            (∀ q ∈ rest, q.name ∉ earlier) ∧ p.name ∉ rest.map name := by
          simp only [List.mem_cons, not_or, List.mem_map, not_exists, not_and]
          grind
        rw [if_neg (by simpa using hname), if_neg (by simp [hsound]), ih, hfresh]
        grind

/-- What a parameter is bound to where these words are left. A required one needs a word. -/
def bound? (p : Parameter) (left : List String) : Option BoundValue :=
  match p.kind, left with
  | .variadic, left => some (.many left)
  | .required, [] => none
  | .optional none, [] => some .absent
  | .optional (some fallback), [] => some (.one fallback)
  | _, word :: _ => some (.one word)

/-- The words that are left behind a parameter. -/
def passes (p : Parameter) (left : List String) : List String :=
  if p.kind = .variadic then [] else left.tail

section Step

variable {p : Parameter} {rest : List Parameter} {words : List String} {word : String}

theorem bindAll_step (p : Parameter) (rest : List Parameter) (words : List String) :
    bindAll (p :: rest) words =
      match p.bound? words with
      | none => .error (.missingArgument p.name)
      | some value => ((p.name, value) :: ·) <$> bindAll rest (p.passes words) := by
  obtain ⟨name, kind⟩ := p
  cases words with
  | nil => rcases kind with _ | (_ | _) | _ <;> rfl
  | cons word words => rcases kind with _ | (_ | _) | _ <;> rfl

theorem bound?_word (h : p.kind ≠ .variadic) : p.bound? (word :: words) = some (.one word) := by
  obtain ⟨name, kind⟩ := p
  cases kind with
  | required => rfl
  | optional fallback? => cases fallback? <;> rfl
  | variadic => exact absurd rfl h

/-- A single word is one of those left or stands in for them. -/
theorem bound?_one (h : p.bound? words = some (.one word)) :
    word ∈ words ∨ p.kind = .optional (some word) := by
  obtain ⟨name, kind⟩ := p
  cases words with
  | nil => rcases kind with _ | (_ | _) | _ <;> simp_all [bound?]
  | cons first words => rcases kind with _ | (_ | _) | _ <;> simp_all [bound?]

theorem passes_subset (p : Parameter) (words : List String) : p.passes words ⊆ words := by
  unfold passes
  split
  · exact List.nil_subset words
  · exact (List.tail_sublist words).subset

theorem bound?_eq_none_iff : p.bound? words = none ↔ p.kind = .required ∧ words = [] := by
  obtain ⟨name, kind⟩ := p
  cases words with
  | nil => rcases kind with _ | (_ | _) | _ <;> simp [bound?]
  | cons word words => rcases kind with _ | (_ | _) | _ <;> simp [bound?]

end Step

section BindAll

variable {params : List Parameter} {words : List String} {values : List (String × BoundValue)}

theorem bindAll_cons_ok {p : Parameter} (h : bindAll (p :: params) words = .ok values) :
    ∃ value later, p.bound? words = some value ∧
      bindAll params (p.passes words) = .ok later ∧ values = (p.name, value) :: later := by
  rw [bindAll_step] at h
  cases hvalue : p.bound? words with
  | none =>
      rw [hvalue] at h
      cases h
  | some value =>
      rw [hvalue] at h
      obtain ⟨later, hlater, rfl⟩ := map_eq_ok_iff.mp h
      exact ⟨value, later, rfl, hlater, rfl⟩

theorem passes_nil (p : Parameter) : p.passes [] = [] := by
  simp [passes]

theorem passes_word {p : Parameter} (h : p.kind ≠ .variadic) (word : String) :
    p.passes (word :: words) = words := by
  simp [passes, h]

/-- The first required parameter without a word is missed. -/
theorem bindAll_missing (hlast : VariadicLast params) {p : Parameter}
    (h : (params.drop words.length).find? (·.kind = .required) = some p) :
    bindAll params words = .error (.missingArgument p.name) := by
  induction params generalizing words with
  | nil => simp at h
  | cons q rest ih =>
      obtain ⟨hnone, hrest⟩ := variadicLast_cons.mp hlast
      rw [bindAll_step]
      cases words with
      | nil =>
          by_cases hq : q.kind = .required
          · obtain rfl : q = p := by simpa [hq] using h
            rw [bound?_eq_none_iff.mpr ⟨hq, rfl⟩]
          · have hlater : (rest.drop 0).find? (·.kind = .required) = some p := by
              simpa [hq] using h
            obtain ⟨value, hvalue⟩ :=
              Option.ne_none_iff_exists'.mp (mt bound?_eq_none_iff.mp fun hboth => hq hboth.1)
            have hbehind : bindAll rest [] = .error (.missingArgument p.name) := ih hrest hlater
            rw [hvalue, passes_nil, hbehind]
            rfl
      | cons word words =>
          have hq : q.kind ≠ .variadic := by
            intro hq
            simp [hnone hq] at h
          rw [bound?_word hq, passes_word hq, ih hrest (by simpa using h)]
          rfl

/-- Where no parameter is variadic, the first word without a parameter is too much. -/
theorem bindAll_unexpected (hplain : ∀ p ∈ params, p.kind ≠ .variadic) {word : String}
    (h : words[params.length]? = some word) :
    bindAll params words = .error (.unexpectedArgument word) := by
  induction params generalizing words with
  | nil =>
      cases words with
      | nil => cases h
      | cons first words =>
          obtain rfl : first = word := by simpa using h
          rfl
  | cons q rest ih =>
      obtain ⟨hq, hrest⟩ := List.forall_mem_cons.mp hplain
      cases words with
      | nil => cases h
      | cons first words =>
          rw [bindAll_step, bound?_word hq, passes_word hq, ih hrest (by simpa using h)]
          rfl

/-- Every required parameter has a word and every word has a parameter. -/
def Fits (params : List Parameter) (words : List String) : Prop :=
  (∀ p ∈ params.drop words.length, p.kind ≠ .required) ∧
    (words.length ≤ params.length ∨ ∃ p, params.getLast? = some p ∧ p.kind = .variadic)

/-- Behind the first parameter the words that it leaves fit the others. -/
theorem Fits.behind {p : Parameter} (hlast : VariadicLast (p :: params))
    (h : Fits (p :: params) words) : Fits params (p.passes words) := by
  obtain ⟨hrequired, hlength⟩ := h
  cases words with
  | nil =>
      rw [passes_nil]
      exact ⟨fun q hq => hrequired q (List.mem_cons_of_mem p hq), .inl (Nat.zero_le _)⟩
  | cons word words =>
      by_cases hp : p.kind = .variadic
      · obtain rfl := (variadicLast_cons.mp hlast).1 hp
        exact ⟨by simp, .inl (by simp [passes, hp])⟩
      · rw [passes_word hp]
        refine ⟨by simpa using hrequired, ?_⟩
        rcases hlength with hfew | ⟨q, hq, hvariadic⟩
        · exact .inl (by simpa using hfew)
        · cases params with
          | nil =>
              obtain rfl : p = q := by simpa using hq
              exact absurd hvariadic hp
          | cons next params => exact .inr ⟨q, by simpa using hq, hvariadic⟩

/-- The required parameters have a word if they stand no further than the words reach. -/
theorem fits_iff : Fits params words ↔
    (∀ (i : Nat) (p : Parameter), params[i]? = some p → p.kind = .required → i < words.length) ∧
      (words.length ≤ params.length ∨ ∃ p, params.getLast? = some p ∧ p.kind = .variadic) := by
  refine and_congr_left fun _ => ⟨fun h i p hp hkind => ?_, fun h p hp hkind => ?_⟩
  · by_contra hfar
    have hdrop : (params.drop words.length)[i - words.length]? = some p := by
      rw [List.getElem?_drop, Nat.add_sub_cancel' (Nat.le_of_not_lt hfar), hp]
    exact h p (List.mem_of_getElem? hdrop) hkind
  · obtain ⟨i, hi⟩ := List.mem_iff_getElem?.mp hp
    rw [List.getElem?_drop] at hi
    have hnear := h _ p hi hkind
    omega

theorem exists_bindAll (hlast : VariadicLast params) (h : Fits params words) :
    ∃ values, bindAll params words = .ok values := by
  induction params generalizing words with
  | nil =>
      obtain ⟨-, hlength⟩ := h
      obtain rfl : words = [] := by simpa using hlength
      exact ⟨[], rfl⟩
  | cons p params ih =>
      have hsome : p.bound? words ≠ none := by
        intro hnone
        obtain ⟨hp, rfl⟩ := bound?_eq_none_iff.mp hnone
        exact h.1 p (by simp) hp
      obtain ⟨value, hvalue⟩ := Option.ne_none_iff_exists'.mp hsome
      obtain ⟨later, hlater⟩ := ih (variadicLast_cons.mp hlast).2 (h.behind hlast)
      refine ⟨(p.name, value) :: later, ?_⟩
      rw [bindAll_step, hvalue, hlater]
      rfl

/-- Either the words fit, or a required parameter has no word, or a word has no parameter. -/
theorem fits_or_not (hlast : VariadicLast params) (words : List String) :
    Fits params words ∨
      (∃ p, (params.drop words.length).find? (·.kind = .required) = some p) ∨
      (∀ p ∈ params, p.kind ≠ .variadic) ∧ ∃ word, words[params.length]? = some word := by
  cases hmissing : (params.drop words.length).find? (·.kind = .required) with
  | some p => exact .inr (.inl ⟨p, rfl⟩)
  | none =>
      have hrequired : ∀ p ∈ params.drop words.length, p.kind ≠ .required := by
        simpa using hmissing
      by_cases hlength : words.length ≤ params.length
      · exact .inl ⟨hrequired, .inl hlength⟩
      by_cases hvariadic : ∃ p, params.getLast? = some p ∧ p.kind = .variadic
      · exact .inl ⟨hrequired, .inr hvariadic⟩
      · refine .inr (.inr ⟨?_, _, List.getElem?_eq_getElem (by omega)⟩)
        exact fun p hp hkind => hvariadic ⟨p, hlast.getLast? hp hkind, hkind⟩

theorem names_bindAll (h : bindAll params words = .ok values) :
    values.map Prod.fst = params.map name := by
  induction params generalizing words values with
  | nil =>
      cases words with
      | nil =>
          cases h
          rfl
      | cons => cases h
  | cons p params ih =>
      obtain ⟨value, later, -, hlater, rfl⟩ := bindAll_cons_ok h
      rw [List.map_cons, List.map_cons, ih hlater]

/-- Each parameter is bound by what the parameters before it leave. -/
theorem lookup_bindAll (hlast : VariadicLast params) (hnames : (params.map name).Nodup)
    (h : bindAll params words = .ok values) {i : Nat} {p : Parameter}
    (hp : params[i]? = some p) :
    ∃ value, p.bound? (words.drop i) = some value ∧ values.lookup p.name = some value := by
  induction params generalizing words values i with
  | nil => cases hp
  | cons q params ih =>
      obtain ⟨value, later, hvalue, hlater, rfl⟩ := bindAll_cons_ok h
      obtain ⟨hnone, hrest⟩ := variadicLast_cons.mp hlast
      obtain ⟨hfresh, hdistinct⟩ := List.nodup_cons.mp hnames
      cases i with
      | zero =>
          obtain rfl : q = p := by simpa using hp
          exact ⟨value, hvalue, List.lookup_cons_self⟩
      | succ i =>
          have hi : params[i]? = some p := by simpa using hp
          have hmem : p ∈ params := List.mem_of_getElem? hi
          have hq : q.kind ≠ .variadic := fun hq => List.ne_nil_of_mem hmem (hnone hq)
          have hne : (p.name == q.name) = false := by
            rw [beq_eq_false_iff_ne]
            intro hsame
            exact hfresh (hsame ▸ List.mem_map_of_mem hmem)
          obtain ⟨own, hown, hlookup⟩ := ih hrest hdistinct hlater hi
          have hdrop : (q.passes words).drop i = words.drop (i + 1) := by
            rw [passes, if_neg hq, List.drop_tail]
          rw [hdrop] at hown
          exact ⟨own, hown, by rw [List.lookup_cons, hne, hlookup]⟩

end BindAll

end Parameter

/-- The words that a value stands for. -/
def BoundValue.words : BoundValue → List String
  | one word => [word]
  | absent => []
  | many words => words

/-- The words that the parameter of this name is bound to. -/
def Args.words (args : Args) (name : String) : List String :=
  ((args.lookup? name).map BoundValue.words).getD []

/-- The parameters that have a word of their own hold all the words between them. -/
theorem Parameter.flatMap_bindAll {params : List Parameter} {words : List String}
    {values : List (String × BoundValue)} (hlast : VariadicLast params)
    (h : bindAll params words = .ok values) :
    (values.take words.length).flatMap (·.2.words) = words := by
  induction params generalizing words values with
  | nil =>
      cases words with
      | nil => rfl
      | cons => cases h
  | cons p params ih =>
      obtain ⟨value, later, hvalue, hlater, rfl⟩ := bindAll_cons_ok h
      obtain ⟨hnone, hrest⟩ := variadicLast_cons.mp hlast
      cases words with
      | nil => rfl
      | cons word words =>
          by_cases hp : p.kind = .variadic
          · -- a variadic parameter is the last one and takes them all
            obtain rfl := hnone hp
            obtain rfl : later = [] := by simpa using names_bindAll hlater
            have hmany : p.bound? (word :: words) = some (.many (word :: words)) := by
              simp [bound?, hp]
            rw [hmany] at hvalue
            obtain rfl := Option.some.inj hvalue
            simp [BoundValue.words]
          · rw [bound?_word hp] at hvalue
            obtain rfl := Option.some.inj hvalue
            rw [passes_word hp] at hlater
            simpa [BoundValue.words] using ih hrest hlater

/-- Where the keys are distinct, each entry is found by its own. -/
theorem lookup_of_mem {β : Type} {entries : List (String × β)}
    (hkeys : (entries.map Prod.fst).Nodup) {entry : String × β} (h : entry ∈ entries) :
    entries.lookup entry.1 = some entry.2 := by
  induction entries with
  | nil => cases h
  | cons first entries ih =>
      obtain ⟨key, value⟩ := first
      obtain ⟨hfresh, hdistinct⟩ := List.nodup_cons.mp hkeys
      rcases List.mem_cons.mp h with rfl | hlater
      · exact List.lookup_cons_self
      · have hne : (entry.1 == key) = false := by
          rw [beq_eq_false_iff_ne]
          intro hsame
          have hmem : entry.1 ∈ entries.map Prod.fst := List.mem_map_of_mem hlater
          exact hfresh (hsame ▸ hmem)
        rw [List.lookup_cons, hne, ih hdistinct hlater]

/-- The same, read off by the names of the parameters. -/
theorem Args.flatMap_words {params : List Parameter} {words : List String}
    {values : List (String × BoundValue)} (hlast : Parameter.VariadicLast params)
    (hnames : (params.map Parameter.name).Nodup)
    (h : Parameter.bindAll params words = .ok values) :
    (params.take words.length).flatMap (fun p => (Args.mk values).words p.name) = words := by
  have hkeys := Parameter.names_bindAll h
  rw [← hkeys] at hnames
  have hfound : ∀ entry ∈ values, (Args.mk values).words entry.1 = entry.2.words := by
    intro entry hentry
    rw [Args.words, Args.lookup?, lookup_of_mem hnames hentry]
    rfl
  calc (params.take words.length).flatMap (fun p => (Args.mk values).words p.name)
      = ((values.map Prod.fst).take words.length).flatMap (Args.mk values).words := by
        rw [hkeys, ← List.map_take, List.flatMap_map]
    _ = (values.take words.length).flatMap (·.2.words) := by
        rw [← List.map_take, List.flatMap_map]
        exact List.flatMap_congr fun entry hentry => hfound entry (List.mem_of_mem_take hentry)
    _ = words := Parameter.flatMap_bindAll hlast h

namespace Signature

variable {params : List Parameter} {s : Signature}

theorem ofParams_of_sound (h : Parameter.fault? [] params = none) :
    ofParams params = .ok ⟨params, h⟩ := by
  unfold ofParams
  split
  · next fault hfault =>
      rw [h] at hfault
      cases hfault
  · rfl

theorem params_of_ofParams (h : ofParams params = .ok s) : s.params = params := by
  unfold ofParams at h
  split at h
  · cases h
  · cases h
    rfl

theorem fault?_nil_iff : Parameter.fault? [] params = none ↔
    (params.map Parameter.name).Nodup ∧ Parameter.VariadicLast params := by
  simp [Parameter.fault?_eq_none_iff]

theorem exists_ofParams_iff :
    (∃ s, ofParams params = .ok s) ↔
      (params.map Parameter.name).Nodup ∧ Parameter.VariadicLast params := by
  rw [← fault?_nil_iff]
  constructor
  · intro haccepted
    obtain ⟨s, hs⟩ := haccepted
    rw [← params_of_ofParams hs]
    exact s.sound
  · exact fun h => ⟨_, ofParams_of_sound h⟩

theorem names_nodup (s : Signature) : (s.params.map Parameter.name).Nodup :=
  (fault?_nil_iff.mp s.sound).1

theorem variadicLast (s : Signature) : Parameter.VariadicLast s.params :=
  (fault?_nil_iff.mp s.sound).2

theorem bind_error {reason : BindingFailure} {words : List String}
    (h : Parameter.bindAll s.params words = .error reason) : s.bind words = .error reason := by
  rw [bind, h]
  rfl

theorem exists_bind {words : List String} (h : Parameter.Fits s.params words) :
    ∃ args, s.bind words = .ok args := by
  obtain ⟨values, hvalues⟩ := Parameter.exists_bindAll s.variadicLast h
  exact ⟨⟨values⟩, map_eq_ok_iff.mpr ⟨values, hvalues, rfl⟩⟩

theorem bind_missing {words : List String} {p : Parameter}
    (h : (s.params.drop words.length).find? (·.kind = .required) = some p) :
    s.bind words = .error (.missingArgument p.name) :=
  bind_error (Parameter.bindAll_missing s.variadicLast h)

/-- The three ways in which binding can end. -/
theorem bind_cases (s : Signature) (words : List String) :
    (Parameter.Fits s.params words ∧ ∃ args, s.bind words = .ok args) ∨
      (∃ p, (s.params.drop words.length).find? (·.kind = .required) = some p ∧
        s.bind words = .error (.missingArgument p.name)) ∨
      ∃ word, words[s.params.length]? = some word ∧
        s.bind words = .error (.unexpectedArgument word) := by
  rcases Parameter.fits_or_not s.variadicLast words with
    hfits | ⟨p, hp⟩ | ⟨hplain, word, hword⟩
  · exact .inl ⟨hfits, exists_bind hfits⟩
  · exact .inr (.inl ⟨p, hp, bind_missing hp⟩)
  · exact .inr (.inr ⟨word, hword, bind_error (Parameter.bindAll_unexpected hplain hword)⟩)

/-- A parameter list is accepted if its names are distinct and only its last parameter may
be variadic. Words are then bound to it if every required parameter has a word and no word
is left; otherwise the first required parameter without a word is missed or, if there is
none, the first word without a parameter is too much. Under its name each parameter has its
own word, what stands in for it, or all the words that are left, and the parameters with a
word of their own give back all the words. -/
theorem bind_complete_lossless (params : List Parameter) :
    ((∃ s, ofParams params = .ok s) ↔
        (params.map Parameter.name).Nodup ∧ ∀ p ∈ params.dropLast, p.kind ≠ .variadic) ∧
      ∀ s, ofParams params = .ok s → s.params = params ∧ ∀ words : List String,
        ((∃ args, s.bind words = .ok args) ↔
          (∀ (i : Nat) (p : Parameter), params[i]? = some p → p.kind = .required →
            i < words.length) ∧
            (words.length ≤ params.length ∨
              ∃ p, params.getLast? = some p ∧ p.kind = .variadic)) ∧
        (∀ p, (params.drop words.length).find? (·.kind = .required) = some p →
          s.bind words = .error (.missingArgument p.name)) ∧
        ((params.drop words.length).find? (·.kind = .required) = none →
          (∃ reason, s.bind words = .error reason) →
            ∃ word, words[params.length]? = some word ∧
              s.bind words = .error (.unexpectedArgument word)) ∧
        ∀ args, s.bind words = .ok args →
          (∀ (i : Nat) (p : Parameter), params[i]? = some p →
            ∃ value, p.bound? (words.drop i) = some value ∧
              args.lookup? p.name = some value) ∧
          (params.take words.length).flatMap (fun p => args.words p.name) = words := by
  refine ⟨exists_ofParams_iff, fun s hs => ?_⟩
  obtain rfl := params_of_ofParams hs
  refine ⟨rfl, fun words => ⟨?_, fun p => bind_missing, ?_, ?_⟩⟩
  · rw [← Parameter.fits_iff]
    refine ⟨fun hbound => ?_, exists_bind⟩
    obtain ⟨args, hargs⟩ := hbound
    rcases s.bind_cases words with ⟨hfits, -⟩ | ⟨p, -, hfails⟩ | ⟨word, -, hfails⟩
    · exact hfits
    · rw [hargs] at hfails
      cases hfails
    · rw [hargs] at hfails
      cases hfails
  · intro hnone hfails
    obtain ⟨reason, hreason⟩ := hfails
    rcases s.bind_cases words with ⟨-, args, hargs⟩ | ⟨p, hp, -⟩ | hunexpected
    · rw [hargs] at hreason
      cases hreason
    · rw [hnone] at hp
      cases hp
    · exact hunexpected
  · intro args hargs
    obtain ⟨values, hvalues, rfl⟩ := map_eq_ok_iff.mp hargs
    exact ⟨fun i p hp => Parameter.lookup_bindAll s.variadicLast s.names_nodup hvalues hp,
      Args.flatMap_words s.variadicLast s.names_nodup hvalues⟩

/-- A parameter that may be left out stands before one that must be given, and the last one
takes the rest. -/
theorem bind_complete_lossless_mixed :
    let params := [⟨"tag", .optional (some "...")⟩, .required "name", .variadic "rules"]
    ∃ s, ofParams params = .ok s ∧
      s.bind ["pets"] = .error (.missingArgument "name") ∧
      ∃ args, s.bind ["pets", "cats", "a", "b"] = .ok args ∧
        args.lookup? "name" = some (.one "cats") ∧
        args.lookup? "rules" = some (.many ["a", "b"]) ∧
        (params.take 4).flatMap (fun p => args.words p.name) = ["pets", "cats", "a", "b"] := by
  intro params
  obtain ⟨haccepts, hbinds⟩ := bind_complete_lossless params
  obtain ⟨s, hs⟩ := haccepts.mpr ⟨by decide, by decide⟩
  obtain ⟨-, hwords⟩ := hbinds s hs
  obtain ⟨-, hmissing, -, -⟩ := hwords ["pets"]
  obtain ⟨hfits, -, -, hvalues⟩ := hwords ["pets", "cats", "a", "b"]
  have hnear : ∀ (i : Nat) (p : Parameter), params[i]? = some p → p.kind = .required → i < 4 := by
    intro i p hp _
    have hlength : i < 3 := (List.getElem?_eq_some_iff.mp hp).1
    omega
  obtain ⟨args, hargs⟩ := hfits.mpr ⟨hnear, .inr ⟨.variadic "rules", rfl, rfl⟩⟩
  obtain ⟨hlookup, hlossless⟩ := hvalues args hargs
  obtain ⟨name, ⟨⟩, hname⟩ := hlookup 1 _ rfl
  obtain ⟨rules, ⟨⟩, hrules⟩ := hlookup 2 _ rfl
  exact ⟨s, hs, hmissing _ rfl, args, hargs, hname, hrules, hlossless⟩

end Signature

end RuleDesk
