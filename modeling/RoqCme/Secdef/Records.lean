import RoqCme.Secdef.ConfigReader

/-! The records of a secdef file: which files are read as the records they were written from. -/
namespace RoqCme.Secdef
open RoqCme.Lib ConfigReader
variable {σ ε : Type}

/-- A field of a record: a decimal tag and a value. -/
structure Field where
  key : List Char
  value : List Char
  deriving DecidableEq, Repr

def Field.text (f : Field) : List Char := f.key ++ '=' :: f.value

/-- The tag is decimal, the value has no delimiter, and what is read as a number is one. -/
structure Field.Valid (cc : Charconv) (f : Field) : Prop where
  decimal : f.key ≠ [] ∧ ∀ c ∈ f.key, c.isDigit = true
  value : ∀ c ∈ f.value, isDelimiter c = false
  numeric : (ConfigReader.set cc SecDef.initial f.key f.value).isSome = true

/-- A record after one more field. -/
def Field.apply (cc : Charconv) (secDef : SecDef) (f : Field) : SecDef :=
  (ConfigReader.set cc secDef f.key f.value).getD secDef

namespace Field
variable {cc : Charconv} {f : Field}

theorem Valid.assign_eq (h : f.Valid cc) :
    ∃ tag write, cc.uint32 f.key = some tag ∧ assign cc tag f.value = some write ∧
      ∀ secDef, set cc secDef f.key f.value = some (write secDef) ∧ f.apply cc secDef = write secDef := by
  obtain ⟨result, hr⟩ := Option.isSome_iff_exists.1 h.numeric
  simp only [ConfigReader.set, Option.bind_eq_some_iff, Option.map_eq_some_iff] at hr
  obtain ⟨tag, htag, write, hwrite, -⟩ := hr
  refine ⟨tag, write, htag, hwrite, ?_⟩
  intro secDef
  have hset : ConfigReader.set cc secDef f.key f.value = some (write secDef) := by
    simp only [ConfigReader.set, htag, Option.bind_some, hwrite, Option.map_some]
  exact ⟨hset, by rw [Field.apply, hset]; rfl⟩

theorem Valid.set_eq (h : f.Valid cc) (secDef : SecDef) :
    set cc secDef f.key f.value = some (f.apply cc secDef) := by
  obtain ⟨_, _, -, -, heq⟩ := h.assign_eq
  rw [(heq secDef).1, (heq secDef).2]

theorem Valid.key_ne (h : f.Valid cc) {c : Char} (hc : c ∈ f.key) : c ≠ '=' ∧ isDelimiter c = false := by
  have hd := h.decimal.2 c hc
  have hdigit : ∀ d : Char, d.isDigit = false → c ≠ d := by
    intro d hfalse he
    rw [he, hfalse] at hd
    cases hd
  refine ⟨hdigit '=' rfl, ?_⟩
  rw [isDelimiter, decide_eq_false_iff_not]
  exact not_or.2 ⟨hdigit '\x01' rfl, hdigit '\n' rfl⟩

theorem Valid.text_free (h : f.Valid cc) : ∀ c ∈ f.text, isDelimiter c = false := by
  intro c hc
  rw [text, List.mem_append, List.mem_cons] at hc
  rcases hc with hc | rfl | hc
  · exact (h.key_ne hc).2
  · rfl
  · exact h.value c hc

theorem text_ne_nil (f : Field) : f.text ≠ [] := by simp [text]

/-- The key is what stands before the first equals sign, and the value all that follows. -/
theorem Valid.field_eq (h : f.Valid cc) (ε : Type) (secDef : SecDef) :
    field cc secDef f.text = (.ok (f.apply cc secDef) : Except (Failure ε) SecDef) := by
  have hkey : f.text.takeWhile (fun c => c ≠ '=') = f.key := by
    rw [text, List.takeWhile_append_of_pos fun c hc => by simpa using (h.key_ne hc).1]
    simp
  have hvalue : substr f.text (f.key.length + 1) = some f.value := by
    rw [substr, if_pos (by simp [text])]
    simp [text]
  simp only [field, hkey, hvalue, h.set_eq]

section Read
variable (h : f.Valid cc) (handler : SecDef → Command σ ε)
include h

theorem Valid.takeWhile_eq {c : Char} (hc : isDelimiter c = true) (rest : List Char) :
    (f.text ++ c :: rest).takeWhile (fun c => !isDelimiter c) = f.text := by
  rw [List.takeWhile_append_of_pos fun c hm => by simp [h.text_free c hm]]
  simp [hc]

/-- A field with a delimiter behind it. -/
theorem Valid.readFrom_delimited {c : Char} (hc : isDelimiter c = true) (rest : List Char)
    (secDef : SecDef) :
    readFrom cc handler (f.text ++ c :: rest) secDef = readFrom cc handler rest (f.apply cc secDef) := by
  have hsub : substr (f.text ++ c :: rest) (f.text.length + 1) = some rest := by
    rw [substr, if_pos (by simp)]
    simp
  have hne : f.text ++ c :: rest ≠ [] := by simp
  rw [readFrom, loop, if_neg hne]
  simp only [h.takeWhile_eq hc, advance, hsub, f.text_ne_nil, if_false, h.field_eq]
  apply loop_congr
  · simp
    omega
  · exact Nat.lt_succ_self _

/-- A field at the end of the buffer: the loop goes on behind a delimiter that is not there. -/
theorem Valid.readFrom_last (secDef : SecDef) :
    readFrom cc handler f.text secDef = .throw .outOfRange := by
  have htake : f.text.takeWhile (fun c => !isDelimiter c) = f.text := by
    rw [List.takeWhile_eq_self_iff]
    intro c hc
    simp [h.text_free c hc]
  have hsub : substr f.text (f.text.length + 1) = none := by
    rw [substr, if_neg (by omega)]
  rw [readFrom, loop, if_neg f.text_ne_nil]
  simp only [htake, advance, hsub, f.text_ne_nil, if_false, h.field_eq]

end Read
end Field

abbrev Record := List Field

/-- The fields of the record from left to right. -/
def Record.secDef (cc : Charconv) (record : Record) : SecDef :=
  record.foldl (Field.apply cc) SecDef.initial

/-- A delimiter after every field and a newline after the record. -/
def Record.text (record : Record) : List Char :=
  (record.flatMap fun f => f.text ++ ['\x01']) ++ ['\n']

namespace ConfigReader
section Records
variable (cc : Charconv) (handler : SecDef → Command σ ε)

theorem readFrom_fields {fields : List Field} (h : ∀ f ∈ fields, f.Valid cc) (rest : List Char)
    (secDef : SecDef) :
    readFrom cc handler ((fields.flatMap fun f => f.text ++ ['\x01']) ++ rest) secDef =
      readFrom cc handler rest (fields.foldl (Field.apply cc) secDef) := by
  induction fields generalizing secDef with
  | nil => rfl
  | cons f fields ih =>
    have hf := (h f (by simp)).readFrom_delimited handler (c := '\x01') rfl
      ((fields.flatMap fun f => f.text ++ ['\x01']) ++ rest) secDef
    rw [List.flatMap_cons, List.append_assoc, List.append_assoc, List.singleton_append, hf,
      List.foldl_cons]
    exact ih (fun f' hf' => h f' (List.mem_cons_of_mem f hf')) _

/-- One record and the records behind it. -/
theorem readFrom_record {record : Record} (h : ∀ f ∈ record, f.Valid cc) (rest : List Char) :
    readFrom cc handler (record.text ++ rest) SecDef.initial =
      ((handler (record.secDef cc)).mapError .handler).andThen
        (readFrom cc handler rest SecDef.initial) := by
  rw [Record.text, List.append_assoc, readFrom_fields cc handler h, List.singleton_append,
    readFrom_delimiter cc handler rfl]
  rfl

/-- A file in canonical form. -/
theorem dispatch_records {records : List Record}
    (h : ∀ record ∈ records, ∀ f ∈ record, f.Valid cc) :
    dispatch cc handler (records.flatMap Record.text) =
      Command.mapError .handler
        (Command.all (records.map fun record => handler (record.secDef cc))) := by
  suffices hread : readFrom cc handler (records.flatMap Record.text) SecDef.initial =
      Command.all ((records.map fun record => handler (record.secDef cc)).map
        (Command.mapError .handler)) by
    rw [Command.mapError_all]
    exact hread
  induction records with
  | nil => rfl
  | cons record records ih =>
    rw [List.flatMap_cons, readFrom_record cc handler (h record (by simp)),
      ih fun r hr => h r (List.mem_cons_of_mem record hr)]
    rfl

end Records
end ConfigReader

/-- The table of instruments that the file leads to. -/
theorem load_of_file {Qp Qo : Type} (cc : Charconv) (discardSymbol : String → Bool) (mbp : Qp)
    (mbo : Qo) {records : List Record} (h : ∀ record ∈ records, ∀ f ∈ record, f.Valid cc) :
    let handler : SecDef → Command (MarketData.SecurityDefinitions Qp Qo) Empty := fun secDef =>
      .update fun sd => sd.onSecDef discardSymbol mbp mbo secDef.toSecDef
    dispatch cc handler (records.flatMap Record.text) {} =
      (MarketData.SecurityDefinitions.load discardSymbol mbp mbo
        (records.map fun record => (record.secDef cc).toSecDef), none) := by
  intro handler
  have hall := Command.all_update (ε := Empty)
    (fun record (sd : MarketData.SecurityDefinitions Qp Qo) =>
      sd.onSecDef discardSymbol mbp mbo (Record.secDef cc record).toSecDef) records {}
  rw [dispatch_records cc handler h, Command.mapError, hall,
    MarketData.SecurityDefinitions.load, List.foldl_map]
  rfl

section Apply
variable {cc : Charconv}

theorem Field.Valid.apply_unrecognised {f : Field} (h : f.Valid cc) {tag : Nat}
    (htag : cc.uint32 f.key = some tag) (hun : tag ∉ tags) (secDef : SecDef) :
    f.apply cc secDef = secDef := by
  obtain ⟨tag', write, htag', hwrite, heq⟩ := h.assign_eq
  rw [htag] at htag'
  cases htag'
  rw [(heq secDef).2]
  unfold assign at hwrite
  split at hwrite
  case h_13 =>
    cases hwrite
    rfl
  all_goals exact absurd (by decide) hun

theorem Field.Valid.apply_same {f : Field} (h : f.Valid cc) {tag : Nat} {x y : SecDef}
    (hs : SameOutside tag x y) : SameOutside tag (f.apply cc x) (f.apply cc y) := by
  obtain ⟨_, write, -, hwrite, heq⟩ := h.assign_eq
  rw [(heq x).2, (heq y).2]
  exact hs.assign hwrite

/-- Records that differ in the place of a tag are the same once the tag is read. -/
theorem foldl_apply_same {fields : List Field} (h : ∀ f ∈ fields, f.Valid cc) {tag : Nat}
    (hrec : tag ∈ tags) {x y : SecDef} (hs : SameOutside tag x y)
    (hagain : ∃ g ∈ fields, cc.uint32 g.key = some tag) :
    fields.foldl (Field.apply cc) x = fields.foldl (Field.apply cc) y := by
  induction fields generalizing x y with
  | nil =>
    obtain ⟨g, hg, -⟩ := hagain
    cases hg
  | cons f fields ih =>
    have hf := h f (by simp)
    by_cases htag : cc.uint32 f.key = some tag
    · obtain ⟨tag', write, htag', hwrite, heq⟩ := hf.assign_eq
      rw [htag] at htag'
      cases htag'
      rw [List.foldl_cons, List.foldl_cons, (heq x).2, (heq y).2, hs.assign_eq hwrite hrec]
    · apply ih (fun g hg => h g (List.mem_cons_of_mem f hg)) (hf.apply_same hs)
      obtain ⟨g, hg, hgtag⟩ := hagain
      cases List.mem_cons.1 hg with
      | inl hgf =>
        rw [hgf] at hgtag
        exact absurd hgtag htag
      | inr hg => exact ⟨g, hg, hgtag⟩

/-- An earlier field with the tag of a later one makes no difference. -/
theorem Record.secDef_last_wins {before after : Record} {f g : Field}
    (h : ∀ f' ∈ f :: after, f'.Valid cc) (hg : g ∈ after) (htag : cc.uint32 f.key = cc.uint32 g.key) :
    Record.secDef cc (before ++ f :: after) = Record.secDef cc (before ++ after) := by
  have hf := h f (by simp)
  obtain ⟨tag, write, hkey, hwrite, heq⟩ := hf.assign_eq
  rw [Record.secDef, Record.secDef, List.foldl_append, List.foldl_append, List.foldl_cons]
  by_cases hrec : tag ∈ tags
  · apply foldl_apply_same (fun f' hf' => h f' (List.mem_cons_of_mem f hf')) hrec
    · rw [(heq _).2]
      exact assign_sameOutside hwrite _
    · exact ⟨g, hg, by rw [← htag, hkey]⟩
  · rw [hf.apply_unrecognised hkey hrec]

end Apply

/-- Every file in canonical form is read as its records: one call of the handler for each, in
order, with the fields of this record applied to the defaults. Of several fields with one tag the
last counts, and unrecognised tags do not. -/
theorem secdef_records_parsed (cc : Charconv) (handler : SecDef → Command σ ε)
    (records : List Record) (h : ∀ record ∈ records, ∀ f ∈ record, f.Valid cc) :
    dispatch cc handler (records.flatMap Record.text) =
        Command.mapError .handler
          (Command.all (records.map fun record => handler (record.secDef cc))) ∧
      (∀ before f after, before ++ f :: after ∈ records →
        (∃ g ∈ after, cc.uint32 f.key = cc.uint32 g.key) →
          Record.secDef cc (before ++ f :: after) = Record.secDef cc (before ++ after)) ∧
      ∀ record ∈ records, ∀ f ∈ record, ∀ tag, cc.uint32 f.key = some tag → tag ∉ tags →
        ∀ secDef, f.apply cc secDef = secDef := by
  refine ⟨dispatch_records cc handler h, ?_, ?_⟩
  · intro before f after hr hlater
    obtain ⟨g, hg, htag⟩ := hlater
    exact Record.secDef_last_wins
      (fun f' hf' => h _ hr f' (List.mem_append_right before hf')) hg htag
  · intro record hr f hf tag htag hun secDef
    exact (h record hr f hf).apply_unrecognised htag hun secDef

def Field.ofStrings (key value : String) : Field := ⟨key.toList, value.toList⟩

/-- A record with a tag given twice and a value with an equals sign, and an empty record. -/
def sampleRecords : List Record :=
  [[.ofStrings "48" "7", .ofStrings "55" "ES=Z5", .ofStrings "9999" "", .ofStrings "48" "8"], []]

instance (cc : Charconv) (f : Field) : Decidable (f.Valid cc) :=
  decidable_of_iff ((f.key ≠ [] ∧ f.key.all Char.isDigit = true) ∧
      (f.value.all fun c => !isDelimiter c) = true ∧
      (ConfigReader.set cc SecDef.initial f.key f.value).isSome = true)
    ⟨fun h => ⟨⟨h.1.1, List.all_eq_true.1 h.1.2⟩,
        fun c hc => by simpa using List.all_eq_true.1 h.2.1 c hc, h.2.2⟩,
      fun h => ⟨⟨h.decimal.1, List.all_eq_true.2 h.decimal.2⟩,
        List.all_eq_true.2 fun c hc => by simp [h.value c hc], h.numeric⟩⟩

/-- The calls of the handler, one after the other. -/
def record : SecDef → Command (List SecDef) Empty := fun secDef =>
  .update fun calls => calls ++ [secDef]

theorem secdef_records_parsed_sample :
    (dispatch Charconv.decimal record (sampleRecords.flatMap Record.text) []).1 =
      [{ SecDef.initial with securityId := 8, symbol := "ES=Z5" }, SecDef.initial] := by
  rw [(secdef_records_parsed Charconv.decimal record sampleRecords (by decide +kernel)).1]
  decide +kernel

/-- A line of a file: the fields of a record with a delimiter between them, and whether there is one
behind the last. -/
structure Line where
  first : Field
  others : List Field
  terminated : Bool
  deriving DecidableEq, Repr

def Line.record (l : Line) : Record := l.first :: l.others

def Line.text (l : Line) : List Char :=
  l.first.text ++ ((l.others.flatMap fun f => '\x01' :: f.text) ++
    if l.terminated then ['\x01'] else [])

/-- The lines with a newline between them, and perhaps one behind the last. -/
def linesText (newline : Bool) : List Line → List Char
  | [] => []
  | [l] => l.text ++ if newline then ['\n'] else []
  | l :: next :: lines => l.text ++ '\n' :: linesText newline (next :: lines)

/-- The file is read as the records of its lines, whatever the handler does. -/
def ReadAsRecords (cc : Charconv) (newline : Bool) (lines : List Line) : Prop :=
  ∀ (σ ε : Type) (handler : SecDef → Command σ ε),
    dispatch cc handler (linesText newline lines) =
      Command.mapError .handler
        (Command.all (lines.map fun l => handler (l.record.secDef cc)))

/-- Every line ends with a delimiter, and the last one with a newline too. -/
def Delimited (newline : Bool) (lines : List Line) : Prop :=
  (∀ l ∈ lines, l.terminated = true) ∧ (lines = [] ∨ newline = true)

theorem Line.text_of_terminated {l : Line} (h : l.terminated = true) :
    l.text ++ ['\n'] = l.record.text := by
  have hshift : ∀ (f : Field) (others : List Field),
      f.text ++ ((others.flatMap fun f => '\x01' :: f.text) ++ ['\x01']) =
        (f :: others).flatMap fun f => f.text ++ ['\x01'] := by
    intro f others
    induction others generalizing f with
    | nil => simp
    | cons g others ih =>
      rw [List.flatMap_cons, List.cons_append, List.cons_append, List.append_assoc, ih g]
      simp
  rw [Line.text, h, if_pos rfl, hshift]
  rfl

/-- Such a file is in canonical form. -/
theorem linesText_of_delimited {newline : Bool} {lines : List Line} (h : Delimited newline lines) :
    linesText newline lines = (lines.map Line.record).flatMap Record.text := by
  induction lines with
  | nil => rfl
  | cons l lines ih =>
    obtain ⟨hall, hnew⟩ := h
    have hnewline : newline = true := hnew.resolve_left (by simp)
    have hrest := ih ⟨fun l' hl' => hall l' (List.mem_cons_of_mem l hl'), Or.inr hnewline⟩
    have hl := Line.text_of_terminated (hall l (by simp))
    cases lines with
    | nil => simp [linesText, hnewline, hl]
    | cons next lines =>
      have hcons : (((l :: next :: lines).map Line.record).flatMap Record.text) =
          l.record.text ++ ((next :: lines).map Line.record).flatMap Record.text := rfl
      rw [linesText, hrest, hcons, ← hl, List.append_assoc, List.singleton_append]

namespace ConfigReader
section Lines
variable {cc : Charconv} (handler : SecDef → Command σ ε) {l : Line}

/-- Fields with a delimiter between them and one behind the last. -/
theorem readFrom_separated {f : Field} {others : List Field} (hf : f.Valid cc)
    (h : ∀ g ∈ others, g.Valid cc) {c : Char} (hc : isDelimiter c = true) (rest : List Char)
    (secDef : SecDef) :
    readFrom cc handler (f.text ++ ((others.flatMap fun f => '\x01' :: f.text) ++ c :: rest)) secDef =
      readFrom cc handler rest ((f :: others).foldl (Field.apply cc) secDef) := by
  induction others generalizing f secDef with
  | nil => exact hf.readFrom_delimited handler hc rest secDef
  | cons g others ih =>
    rw [List.flatMap_cons, List.cons_append, List.cons_append,
      hf.readFrom_delimited handler (c := '\x01') rfl, List.append_assoc,
      ih (h g (by simp)) fun g' hg' => h g' (List.mem_cons_of_mem g hg')]
    rfl

/-- Without a delimiter behind the last field the reader leaves the buffer. -/
theorem readFrom_unterminated {f : Field} {others : List Field} (hf : f.Valid cc)
    (h : ∀ g ∈ others, g.Valid cc) (secDef : SecDef) :
    readFrom cc handler (f.text ++ others.flatMap fun f => '\x01' :: f.text) secDef =
      .throw .outOfRange := by
  induction others generalizing f secDef with
  | nil =>
    rw [List.flatMap_nil, List.append_nil]
    exact hf.readFrom_last handler secDef
  | cons g others ih =>
    rw [List.flatMap_cons, List.cons_append, hf.readFrom_delimited handler (c := '\x01') rfl,
      ih (h g (by simp)) fun g' hg' => h g' (List.mem_cons_of_mem g hg')]

variable (h : ∀ f ∈ l.record, f.Valid cc)
include h

/-- A line and a newline: a call, or the fields are kept for the next line. -/
theorem readFrom_line (rest : List Char) (secDef : SecDef) :
    readFrom cc handler (l.text ++ '\n' :: rest) secDef =
      if l.terminated then
        ((handler (l.record.foldl (Field.apply cc) secDef)).mapError .handler).andThen
          (readFrom cc handler rest SecDef.initial)
      else readFrom cc handler rest (l.record.foldl (Field.apply cc) secDef) := by
  have hf := h l.first (by simp [Line.record])
  have hothers : ∀ g ∈ l.others, g.Valid cc := fun g hg => h g (by simp [Line.record, hg])
  cases ht : l.terminated with
  | true =>
    rw [Line.text, ht, if_pos rfl, List.append_assoc, List.append_assoc, List.singleton_append,
      readFrom_separated handler hf hothers rfl, readFrom_delimiter cc handler rfl]
    rfl
  | false =>
    rw [Line.text, ht, if_neg (by simp), List.append_nil, List.append_assoc,
      readFrom_separated handler hf hothers rfl]
    rfl

/-- The last line without a newline: no call. -/
theorem readFrom_lastLine (secDef : SecDef) :
    readFrom cc handler l.text secDef = if l.terminated then .skip else .throw .outOfRange := by
  have hf := h l.first (by simp [Line.record])
  have hothers : ∀ g ∈ l.others, g.Valid cc := fun g hg => h g (by simp [Line.record, hg])
  cases ht : l.terminated with
  | true =>
    rw [Line.text, ht, if_pos rfl, readFrom_separated handler hf hothers rfl, readFrom_nil]
    rfl
  | false =>
    rw [Line.text, ht, if_neg (by simp), List.append_nil,
      readFrom_unterminated handler hf hothers]
    rfl

end Lines

/-- A handler that counts its calls. -/
def count : SecDef → Command Nat Empty := fun _ => .update fun n => n + 1

/-- There are never more calls than lines, and as many only if nothing is missing. -/
theorem count_lines {cc : Charconv} (newline : Bool) (lines : List Line)
    (h : ∀ l ∈ lines, ∀ f ∈ l.record, f.Valid cc) (secDef : SecDef) (n : Nat) :
    (readFrom cc count (linesText newline lines) secDef n).1 ≤ n + lines.length ∧
      ((readFrom cc count (linesText newline lines) secDef n).1 = n + lines.length →
        Delimited newline lines) := by
  induction lines generalizing secDef n with
  | nil => exact ⟨Nat.le_refl n, fun _ => ⟨by simp, Or.inl rfl⟩⟩
  | cons l lines ih =>
    have hl := h l (by simp)
    have hrest := ih fun l' hl' => h l' (List.mem_cons_of_mem l hl')
    have hcall : ∀ (secDef : SecDef) (rest : Command Nat (Failure Empty)),
        ((count secDef).mapError .handler).andThen rest n = rest (n + 1) := fun _ _ => rfl
    cases lines with
    | nil =>
      cases newline with
      | true =>
        rw [linesText, if_pos rfl, readFrom_line count hl]
        cases ht : l.terminated with
        | true =>
          rw [if_pos rfl, hcall, readFrom_nil]
          exact ⟨Nat.le_refl _, fun _ => ⟨by simp [ht], Or.inr rfl⟩⟩
        | false =>
          rw [if_neg (by simp), readFrom_nil]
          simp [Command.skip]
      | false =>
        rw [linesText, if_neg (by simp), List.append_nil, readFrom_lastLine count hl]
        cases ht : l.terminated with
        | true => simp [Command.skip]
        | false => simp [Command.throw]
    | cons next lines =>
      rw [linesText, readFrom_line count hl]
      cases ht : l.terminated with
      | true =>
        rw [if_pos rfl, hcall]
        obtain ⟨hle, heq⟩ := hrest SecDef.initial (n + 1)
        rw [List.length_cons]
        refine ⟨by omega, ?_⟩
        intro hn
        obtain ⟨hall, hnew⟩ := heq (by omega)
        exact ⟨by simpa [ht] using hall, Or.inr (hnew.resolve_left (by simp))⟩
      | false =>
        rw [if_neg (by simp)]
        obtain ⟨hle, -⟩ := hrest (l.record.foldl (Field.apply cc) secDef) n
        rw [List.length_cons]
        exact ⟨by omega, fun hn => by omega⟩

end ConfigReader

/-- A file of lines is read as its records exactly when no delimiter and no newline is missing. -/
theorem line_discipline_iff (cc : Charconv) (newline : Bool) (lines : List Line)
    (h : ∀ l ∈ lines, ∀ f ∈ l.record, f.Valid cc) :
    ReadAsRecords cc newline lines ↔ Delimited newline lines := by
  constructor
  · intro hread
    apply (count_lines newline lines h SecDef.initial 0).2
    have hall := congrArg Prod.fst (congrFun (hread Nat Empty count) 0)
    have hcalls : (Command.all (lines.map fun l => count (l.record.secDef cc)) 0).1 = lines.length := by
      have hupdate := Command.all_update (ε := Empty) (fun (_ : Line) n => n + 1) lines 0
      exact (congrArg Prod.fst hupdate).trans (by simp)
    rw [Nat.zero_add, ← hcalls]
    exact hall
  · intro hd σ ε handler
    rw [linesText_of_delimited hd, dispatch_records cc handler, List.map_map]
    · rfl
    · intro record hr
      obtain ⟨l, hl, rfl⟩ := List.mem_map.1 hr
      exact h l hl

instance (newline : Bool) (lines : List Line) : Decidable (Delimited newline lines) :=
  inferInstanceAs (Decidable ((∀ l ∈ lines, l.terminated = true) ∧ (lines = [] ∨ newline = true)))

/-- A line with one security id. -/
def idLine (id : String) (terminated : Bool) : Line := ⟨.ofStrings "48" id, [], terminated⟩

theorem line_discipline_terminated :
    ReadAsRecords Charconv.decimal true [idLine "7" true, idLine "8" true] :=
  (line_discipline_iff Charconv.decimal true [idLine "7" true, idLine "8" true]
    (by decide +kernel)).2 (by decide)

/-- Without a delimiter at its end a line becomes part of the next one; the last line is lost
without a newline, and without either the reader throws. -/
theorem lines_merged_lost_or_thrown :
    dispatch Charconv.decimal record (linesText true [idLine "7" false, idLine "8" true]) [] =
        ([{ SecDef.initial with securityId := 8 }], none) ∧
      dispatch Charconv.decimal record (linesText false [idLine "7" true]) [] = ([], none) ∧
      dispatch Charconv.decimal record (linesText false [idLine "7" false]) [] =
        ([], some .outOfRange) ∧
      ¬ ReadAsRecords Charconv.decimal true [idLine "7" false, idLine "8" true] := by
  refine ⟨by decide +kernel, by decide +kernel, by decide +kernel, ?_⟩
  intro h
  have hread := congrFun (h (List SecDef) Empty record) []
  revert hread
  decide +kernel

end RoqCme.Secdef
