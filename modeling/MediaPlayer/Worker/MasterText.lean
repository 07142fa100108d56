import MediaPlayer.Worker.Renditions

/-!
# Adding an entry to the text of a master

`add_to_master` reads a playlist as a head and its entries, adds one and writes the whole
text again.

* `entriesOf_addToMaster` — read back, the text has the same head, and the entries it had
  with the new one among them.
* `contains_addToMaster` — the URI of a rendition occurs in it only if it did before, or if
  it is the one that was added: no other line comes to name it.
-/

namespace MediaPlayer
namespace Worker

open Library

/-! ## The head and the entries -/

/-- The lines of a playlist that are not blank. -/
def playlistLines (text : String) : List String :=
  (splitLines text).filter fun line => strip line ≠ ""

theorem entriesOf_eq (text : String) : entriesOf text = entriesFrom false (playlistLines text) :=
  rfl

theorem mem_of_mem_entriesFrom (lines : List String) (started : Bool) :
    (∀ line ∈ (entriesFrom started lines).1, line ∈ lines) ∧
      ∀ entry ∈ (entriesFrom started lines).2,
        startsWith entry.1 streamInf = true ∧ entry.1 ∈ lines ∧ entry.2 ∈ lines := by
  induction started, lines using entriesFrom.induct with
  | case1 started => simp [entriesFrom]
  | case2 started line => cases started <;> simp [entriesFrom]
  | case3 started line uri rest hinfo _ _ _ ih =>
      simp only [entriesFrom, hinfo, if_true]
      refine ⟨fun other hother => ?_, fun entry hentry => ?_⟩
      · exact List.mem_cons_of_mem _ (List.mem_cons_of_mem _ (ih.1 other hother))
      · rcases List.mem_cons.mp hentry with rfl | hentry
        · simp [hinfo]
        · obtain ⟨hstart, hfirst, hsecond⟩ := ih.2 entry hentry
          exact ⟨hstart, by simp [hfirst], by simp [hsecond]⟩
  | case4 started line uri rest hinfo _ _ _ ih =>
      simp only [entriesFrom, if_neg hinfo]
      refine ⟨fun other hother => ?_, fun entry hentry => ?_⟩
      · cases started with
        | true => exact List.mem_cons_of_mem _ (ih.1 other hother)
        | false =>
            rcases List.mem_cons.mp hother with rfl | hother
            · exact List.mem_cons_self ..
            · exact List.mem_cons_of_mem _ (ih.1 other hother)
      · obtain ⟨hstart, hfirst, hsecond⟩ := ih.2 entry hentry
        exact ⟨hstart, List.mem_cons_of_mem _ hfirst, List.mem_cons_of_mem _ hsecond⟩

/-- After the first entry nothing goes to the head, and before it no STREAM-INF line does. -/
theorem head_entriesFrom (lines : List String) (started : Bool) :
    (started = true → (entriesFrom started lines).1 = []) ∧
      ((entriesFrom started lines).2 ≠ [] →
        ∀ line ∈ (entriesFrom started lines).1, startsWith line streamInf = false) := by
  induction started, lines using entriesFrom.induct with
  | case1 started => simp [entriesFrom]
  | case2 started line => simp +contextual [entriesFrom]
  | case3 started line uri rest hinfo _ _ _ ih =>
      simp only [entriesFrom, hinfo, if_true]
      exact ⟨fun _ => ih.1 rfl, fun _ => by simp [ih.1 rfl]⟩
  | case4 started line uri rest hinfo _ _ _ ih =>
      simp only [entriesFrom, if_neg hinfo]
      refine ⟨fun hstarted => by rw [if_pos hstarted, ih.1 hstarted], fun hne other hother => ?_⟩
      cases started with
      | true => exact ih.2 hne other hother
      | false =>
          rcases List.mem_cons.mp hother with rfl | hother
          · exact (Bool.not_eq_true _).mp hinfo
          · exact ih.2 hne other hother

theorem entriesFrom_entries {entries : List (String × String)}
    (hentries : ∀ entry ∈ entries, startsWith entry.1 streamInf = true) (started : Bool) :
    entriesFrom started (masterLines [] entries) = ([], entries) := by
  induction entries generalizing started with
  | nil => rfl
  | cons entry entries ih =>
      have hinfo := hentries entry (List.mem_cons_self ..)
      have hrest := ih (fun other hother => hentries other (List.mem_cons_of_mem _ hother)) true
      simp only [masterLines, List.nil_append] at hrest
      simp [masterLines, entriesFrom, hinfo, hrest]

/-- The lines of a playlist are read as they were written. -/
theorem entriesFrom_masterLines {head : List String} {entries : List (String × String)}
    (hhead : ∀ line ∈ head, startsWith line streamInf = false)
    (hentries : ∀ entry ∈ entries, startsWith entry.1 streamInf = true) :
    entriesFrom false (masterLines head entries) = (head, entries) := by
  induction head with
  | nil => exact entriesFrom_entries hentries false
  | cons line head ih =>
      have hline := hhead line (List.mem_cons_self ..)
      have hrest := ih fun other hother => hhead other (List.mem_cons_of_mem _ hother)
      have hcons : masterLines (line :: head) entries = line :: masterLines head entries := rfl
      rw [hcons]
      cases hlines : masterLines head entries with
      | nil =>
          obtain ⟨rfl, hnil⟩ := List.append_eq_nil_iff.mp hlines
          rw [hlines] at hrest
          obtain ⟨-, rfl⟩ := Prod.mk.inj hrest
          rfl
      | cons uri rest =>
          rw [hlines] at hrest
          simp [entriesFrom, hline, hrest]

/-- The playlist's lines carry no line break and are not blank. -/
theorem mem_playlistLines {text line : String} (hline : line ∈ playlistLines text) :
    line ∈ splitLines text ∧ strip line ≠ "" ∧ BreakFree line := by
  obtain ⟨hmem, hblank⟩ := List.mem_filter.mp hline
  exact ⟨hmem, of_decide_eq_true hblank, breakFree_of_mem_splitLines hmem⟩

/-- A playlist that is written from lines is read as these lines. -/
theorem playlistLines_joinLines {lines : List String} (hne : lines ≠ [])
    (hlines : ∀ line ∈ lines, strip line ≠ "" ∧ BreakFree line) :
    playlistLines (joinLines lines) = lines := by
  unfold playlistLines
  rw [splitLines_joinLines hne fun line hline => (hlines line hline).2]
  exact List.filter_eq_self.mpr fun line hline => decide_eq_true (hlines line hline).1

/-! ## The line and the URI of a rung -/

/-- A text that neither breaks a line nor holds a path. -/
def PlainText (text : String) : Prop := ∀ c ∈ text.toList, isLineBreak c = false ∧ c ≠ '/'

instance (text : String) : Decidable (PlainText text) :=
  List.decidableBAll _ text.toList

@[simp] theorem plainText_append {left right : String} :
    PlainText (left ++ right) ↔ PlainText left ∧ PlainText right := by
  simp only [PlainText, String.toList_append, List.mem_append, or_imp, forall_and]
  tauto

theorem PlainText.breakFree {text : String} (htext : PlainText text) : BreakFree text :=
  fun c hc => (htext c hc).1

theorem plain_of_isDigit {c : Char} (hc : c.isDigit = true) : isLineBreak c = false ∧ c ≠ '/' := by
  have hrange : 48 ≤ c.toNat ∧ c.toNat ≤ 57 := by
    simpa [Char.isDigit, UInt32.le_iff_toNat_le] using hc
  refine ⟨?_, ?_⟩
  · simp only [isLineBreak, Bool.or_eq_false_iff, Bool.and_eq_false_iff, decide_eq_false_iff_not,
      beq_eq_false_iff_ne]
    omega
  · rintro rfl
    exact absurd hrange.1 (by decide)

@[simp] theorem plainText_repr (n : ℕ) : PlainText n.repr := fun _ hc =>
  plain_of_isDigit
    (Nat.isDigit_of_mem_toDigits (b := 10) (by decide) (by decide) (Nat.toList_repr ▸ hc))

/-- What a rung is listed with keeps to its line. -/
structure Listed.Plain (listed : Listed) : Prop where
  codecs : PlainText listed.plan.codecs
  videoRange : PlainText listed.plan.videoRange
  resolution : PlainText listed.resolution

theorem plainText_av1Level (height : ℕ) : PlainText (av1Level height) := by
  unfold av1Level
  split_ifs <;> decide

theorem plainText_videoRange (transfer : String) : PlainText (videoRange transfer) := by
  unfold videoRange
  split_ifs <;> decide

theorem planRendition_plain {kind : RenditionKind} {probe : SourceProbe} {height : ℕ}
    {plan : RenditionPlan} (hplan : planRendition kind probe height = some plan) :
    plan.kind = kind ∧ PlainText plan.codecs ∧ PlainText plan.videoRange := by
  have hlevel := plainText_av1Level height
  cases kind with
  | hdr =>
      simp only [planRendition] at hplan
      split at hplan
      · obtain ⟨transfer, -, hsome⟩ := Option.bind_eq_some_iff.mp hplan
        obtain ⟨code, hcode, rfl⟩ := Option.map_eq_some_iff.mp hsome
        have hplain : PlainText code := by
          unfold transferCode at hcode
          split_ifs at hcode <;> obtain rfl := Option.some.inj hcode <;> decide
        refine ⟨rfl, ?_, ?_⟩
        · simp only [toString, plainText_append]
          refine ⟨⟨⟨⟨?_, hlevel⟩, ?_⟩, hplain⟩, ?_⟩ <;> decide
        · exact plainText_videoRange transfer
      · simp at hplan
  | av1 =>
      simp only [planRendition] at hplan
      split at hplan
      · simp at hplan
      · obtain rfl := Option.some.inj hplan
        have hsdr : PlainText "SDR" := by decide
        refine ⟨rfl, ?_, hsdr⟩
        simp only [toString, plainText_append]
        refine ⟨⟨?_, hlevel⟩, ?_⟩ <;> decide

/-- What a rung of a source is listed as. -/
theorem listedRung_plain {kind : RenditionKind} {probe : SourceProbe} {rung : ℕ}
    {bandwidth : ℕ × ℕ} {listed : Listed}
    (hlisted : listedRung kind probe rung bandwidth = some listed) :
    listed.plan.kind = kind ∧ listed.rung = rung ∧ listed.Plain := by
  obtain ⟨plan, hplan, rfl⟩ := Option.map_eq_some_iff.mp hlisted
  obtain ⟨hkind, hcodecs, hrange⟩ := planRendition_plain hplan
  refine ⟨hkind, rfl, hcodecs, hrange, ?_⟩
  simp only [toString, plainText_append]
  exact ⟨⟨plainText_repr _, by decide⟩, plainText_repr _⟩

theorem searchQuoted_infix {key text group : List Char}
    (hgroup : searchQuoted key text = some group) : group <:+: text := by
  induction text with
  | nil => simp [searchQuoted] at hgroup
  | cons c rest ih =>
      simp only [searchQuoted] at hgroup
      split at hgroup
      · obtain rfl := Option.some.inj hgroup
        exact (List.takeWhile_prefix _).isInfix.trans (List.drop_suffix ..).isInfix
      · exact (ih hgroup).trans (List.suffix_cons ..).isInfix

theorem plain_of_searchNumber {key text group : List Char}
    (hgroup : searchNumber key text = some group) :
    ∀ c ∈ group, isLineBreak c = false ∧ c ≠ '/' := by
  induction text with
  | nil => simp [searchNumber] at hgroup
  | cons c rest ih =>
      simp only [searchNumber] at hgroup
      split at hgroup
      · obtain rfl := Option.some.inj hgroup
        intro d hd
        have hdigit := List.mem_takeWhile_imp hd
        rcases Bool.or_eq_true_iff.mp hdigit with hdigit | hdot
        · exact plain_of_isDigit hdigit
        · obtain rfl := beq_iff_eq.mp hdot
          decide
      · exact ih hgroup

theorem plainText_intercalate {parts : List String} (hparts : ∀ part ∈ parts, PlainText part) :
    PlainText (",".intercalate parts) := by
  have hcomma : PlainText "," := by decide
  induction parts with
  | nil => exact fun c hc => by simp at hc
  | cons part parts ih =>
      have hpart := hparts part (List.mem_cons_self ..)
      have hrest := ih fun other hother => hparts other (List.mem_cons_of_mem _ hother)
      cases parts with
      | nil => simpa using hpart
      | cons next parts =>
          rw [String.intercalate_cons_cons]
          simp only [plainText_append]
          exact ⟨⟨hpart, hcomma⟩, hrest⟩

theorem Listed.Plain.attributes {listed : Listed} (hplain : listed.Plain) {codec : String}
    (hcodec : PlainText codec) : ∀ part ∈ listed.attributes codec, PlainText part := by
  simp only [Listed.attributes, List.forall_mem_cons, toString, plainText_append,
    plainText_repr, hplain.codecs, hplain.videoRange, hplain.resolution, hcodec, and_true]
  refine ⟨?_, ?_, ?_, ⟨?_, ?_⟩, ?_, by simp⟩ <;> decide

/-- The attribute for the ladder's frame rate. -/
theorem plainText_rate (first : String) : ∀ part ∈
    (((searchNumber "FRAME-RATE=".toList first.toList).map String.ofList).map
      fun rate => s!"FRAME-RATE={rate}").toList, PlainText part := by
  intro part hpart
  obtain ⟨rate, hsome, rfl⟩ := Option.map_eq_some_iff.mp (Option.mem_toList.mp hpart)
  obtain ⟨chars, hchars, rfl⟩ := Option.map_eq_some_iff.mp hsome
  have hdigits : PlainText (String.ofList chars) := fun c hc =>
    plain_of_searchNumber hchars c (by simpa using hc)
  have hkey : PlainText "FRAME-RATE=" := by decide
  simpa [toString] using ⟨hkey, hdigits⟩

/-- The line of a rung is plain, but for the audio group it takes from the ladder. -/
theorem Listed.Plain.info {listed : Listed} (hplain : listed.Plain) (first : String) :
    PlainText (listed.info first) ∨ ∃ before group after : String,
      PlainText before ∧ PlainText after ∧ group.toList <:+: first.toList ∧
        listed.info first = before ++ "\"" ++ group ++ "\"" ++ after := by
  have hstart : PlainText streamInf := by decide
  have hcomma : PlainText "," := by decide
  obtain ⟨rates, hrate⟩ : ∃ rates, rates =
      (((searchNumber "FRAME-RATE=".toList first.toList).map String.ofList).map
        fun rate => s!"FRAME-RATE={rate}").toList := ⟨_, rfl⟩
  have hrates : ∀ part ∈ rates, PlainText part := hrate ▸ plainText_rate first
  simp only [Listed.info, ← hrate]
  cases haudio : (searchQuoted "AUDIO=\"".toList first.toList).map String.ofList with
  | none =>
      refine Or.inl (plainText_append.mpr ⟨hstart, plainText_intercalate fun part hpart => ?_⟩)
      rw [Option.map_none, Option.toList_none, List.append_nil] at hpart
      rcases List.mem_append.mp hpart with hpart | hpart
      · have hnone : PlainText "" := by decide
        exact hplain.attributes hnone part hpart
      · exact hrates part hpart
  | some group =>
      obtain ⟨chars, hchars, rfl⟩ := Option.map_eq_some_iff.mp haudio
      have haac : PlainText ",mp4a.40.2" := by decide
      have hown := plainText_intercalate (hplain.attributes haac)
      have hkey : PlainText "AUDIO=" := by decide
      have hne : listed.attributes ",mp4a.40.2" ≠ [] := by simp [Listed.attributes]
      have hsplit : "AUDIO=\"" = "AUDIO=" ++ "\"" := rfl
      refine Or.inr ⟨streamInf ++ ",".intercalate (listed.attributes ",mp4a.40.2") ++ "," ++
        "AUDIO=", String.ofList chars,
        if rates = [] then "" else "," ++ ",".intercalate rates, ?_, ?_, ?_, ?_⟩
      · simp only [plainText_append]
        exact ⟨⟨⟨hstart, hown⟩, hcomma⟩, hkey⟩
      · split_ifs
        · decide
        · exact plainText_append.mpr ⟨hcomma, plainText_intercalate hrates⟩
      · simpa using searchQuoted_infix hchars
      · rw [Option.map_some, Option.toList_some, Option.isSome_some, if_pos rfl]
        split_ifs with hnil
        · rw [hnil, List.append_nil, String.intercalate_append_of_ne_nil hne (by simp),
            String.intercalate_singleton]
          simp only [hsplit, String.append_assoc, String.append_empty]
        · rw [String.intercalate_append_of_ne_nil (by simp) hnil,
            String.intercalate_append_of_ne_nil hne (by simp), String.intercalate_singleton]
          simp only [hsplit, String.append_assoc]

theorem toList_renditionUri (kind : RenditionKind) (rung : ℕ) :
    (renditionUri kind rung).toList =
      kind.name.toList ++ '/' :: (rung.repr.toList ++ '/' :: "index.m3u8".toList) := by
  simp [renditionUri, toString]

/-- A URI is one line, of which no attribute is a part. -/
theorem renditionUri_chars (kind : RenditionKind) (rung : ℕ) {c : Char}
    (hc : c ∈ (renditionUri kind rung).toList) : isLineBreak c = false ∧ c ≠ '"' := by
  have hof : ∀ {text : String}, BreakFree text → '"' ∉ text.toList → c ∈ text.toList →
      isLineBreak c = false ∧ c ≠ '"' := fun hfree hquote hc =>
    ⟨hfree c hc, fun heq => hquote (heq ▸ hc)⟩
  rw [toList_renditionUri] at hc
  simp only [List.mem_append, List.mem_cons] at hc
  rcases hc with hkind | rfl | hrung | rfl | hname
  · cases kind <;> exact hof (by decide) (by decide) hkind
  · decide
  · refine ⟨(plainText_repr rung c hrung).1, ?_⟩
    rintro rfl
    exact not_mem_repr (by decide) rung hrung
  · decide
  · exact hof (by decide) (by decide) hname

/-- No URI of a rendition is a part of another. -/
theorem renditionUri_eq_of_contains {kind other : RenditionKind} {rung height : ℕ}
    (hcontains : contains (renditionUri other height) (renditionUri kind rung) = true) :
    renditionUri other height = renditionUri kind rung := by
  obtain ⟨before, after, htext⟩ := of_decide_eq_true hcontains
  rw [toList_renditionUri, toList_renditionUri] at htext
  have hname : ∀ kind : RenditionKind, '/' ∉ kind.name.toList := by
    intro kind
    cases kind <;> decide
  have hrung : ∀ n : ℕ, '/' ∉ n.repr.toList := not_mem_repr (by decide)
  have hindex : '/' ∉ "index.m3u8".toList := by decide
  -- Both have two slashes, so nothing with a slash stands before the shorter one.
  have hcount := congrArg (List.count '/') htext
  simp only [List.count_append, List.count_cons_self, List.count_eq_zero.mpr (hname _),
    List.count_eq_zero.mpr (hrung _), List.count_eq_zero.mpr hindex] at hcount
  have hbefore : '/' ∉ before := List.count_eq_zero.mp (by omega)
  rw [List.append_assoc, List.append_assoc, ← List.append_assoc before, List.cons_append] at htext
  obtain ⟨hkind, htext⟩ := append_cons_inj
    (by simpa using ⟨hbefore, hname kind⟩) (hname other) htext
  rw [List.append_assoc, List.cons_append] at htext
  obtain ⟨hrungs, -⟩ := append_cons_inj (hrung _) (hrung _) htext
  have hlength : before.length + 3 = 3 := by
    have := congrArg List.length hkind
    have hthree : ∀ kind : RenditionKind, kind.name.toList.length = 3 := by
      intro kind
      cases kind <;> rfl
    simpa [hthree] using this
  obtain rfl := List.length_eq_zero_iff.mp (by omega : before.length = 0)
  refine String.toList_inj.mp ?_
  rw [toList_renditionUri, toList_renditionUri, ← hrungs, ← hkind, List.nil_append]

/-! ## The playlist with one more entry -/

theorem breakFree_info {listed : Listed} (hplain : listed.Plain) {first : String}
    (hfirst : BreakFree first) : BreakFree (listed.info first) := by
  rcases hplain.info first with hinfo | ⟨before, group, after, hbefore, hafter, hgroup, hinfo⟩
  · exact hinfo.breakFree
  · have hquote : BreakFree "\"" := by decide
    simp only [hinfo, breakFree_append]
    exact ⟨⟨⟨⟨hbefore.breakFree, hquote⟩, fun c hc => hfirst c (hgroup.subset hc)⟩, hquote⟩,
      hafter.breakFree⟩

/-- A URI in the line of a rung is in the line the rung takes its audio group from. -/
theorem contains_info {listed : Listed} (hplain : listed.Plain) {first : String}
    {kind : RenditionKind} {rung : ℕ}
    (huri : contains (listed.info first) (renditionUri kind rung) = true) :
    contains first (renditionUri kind rung) = true := by
  have hslash : '/' ∈ (renditionUri kind rung).toList := by simp [toList_renditionUri]
  have hquote : '"' ∉ (renditionUri kind rung).toList := fun hc =>
    (renditionUri_chars kind rung hc).2 rfl
  have hplainText : ∀ {text : String}, PlainText text →
      ¬(renditionUri kind rung).toList <:+: text.toList := fun htext hwithin =>
    (htext '/' (hwithin.subset hslash)).2 rfl
  simp only [contains, decide_eq_true_eq] at huri ⊢
  rcases hplain.info first with hinfo | ⟨before, group, after, hbefore, hafter, hgroup, hinfo⟩
  · exact absurd huri (hplainText hinfo)
  · have hchars : (listed.info first).toList =
        before.toList ++ '"' :: (group.toList ++ '"' :: after.toList) := by
      simp [hinfo]
    rw [hchars, infix_append_cons_iff hquote, infix_append_cons_iff hquote] at huri
    rcases huri with huri | huri | huri
    · exact absurd huri (hplainText hbefore)
    · exact huri.trans hgroup
    · exact absurd huri (hplainText hafter)

theorem startsWith_info (listed : Listed) (first : String) :
    startsWith (listed.info first) streamInf = true :=
  startsWith_append _ _

theorem strip_info_ne (listed : Listed) (first : String) : strip (listed.info first) ≠ "" := by
  have hhash : '#' ∈ (listed.info first).toList := by
    rw [Listed.info, String.toList_append]
    exact List.mem_append_left _ (by decide)
  exact strip_ne_of_mem hhash (by decide)

theorem strip_uri_ne (listed : Listed) : strip listed.uri ≠ "" := by
  have hslash : '/' ∈ listed.uri.toList := by simp [Listed.uri, toList_renditionUri]
  exact strip_ne_of_mem hslash (by decide)

theorem breakFree_uri (listed : Listed) : BreakFree listed.uri := fun _ hc =>
  (renditionUri_chars _ _ hc).1

/-- The first entry of a picture is an entry, if there is one. -/
theorem firstVideo_cases (entries : List (String × String)) :
    firstVideo entries = "" ∨ ∃ entry ∈ entries, entry.1 = firstVideo entries := by
  unfold firstVideo
  cases hfind : entries.find? fun entry => contains entry.1 "RESOLUTION=" with
  | none => exact Or.inl rfl
  | some entry => exact Or.inr ⟨entry, List.mem_of_find?_eq_some hfind, rfl⟩

theorem addEntry_perm (entries : List (String × String)) (listed : Listed) :
    (addEntry entries listed).Perm
      (entries ++ [(listed.info (firstVideo entries), listed.uri)]) :=
  List.perm_insertionSort _ _

theorem mem_addEntry {entries : List (String × String)} {listed : Listed}
    {entry : String × String} : entry ∈ addEntry entries listed ↔
      entry ∈ entries ∨ entry = (listed.info (firstVideo entries), listed.uri) := by
  rw [(addEntry_perm entries listed).mem_iff, List.mem_append, List.mem_singleton]

theorem mem_masterLines {head : List String} {entries : List (String × String)} {line : String} :
    line ∈ masterLines head entries ↔
      line ∈ head ∨ ∃ entry ∈ entries, line = entry.1 ∨ line = entry.2 := by
  simp [masterLines]

theorem addToMaster_of_not_contains {master : String} {listed : Listed}
    (hnew : contains master listed.uri = false) : addToMaster master listed =
      joinLines (masterLines (entriesOf master).1 (addEntry (entriesOf master).2 listed)) := by
  simp [addToMaster, hnew]

/-- The lines of the new playlist: lines of the old one, and the two of the new entry. -/
theorem mem_newLines {master line : String} {listed : Listed}
    (hline : line ∈ masterLines (entriesOf master).1 (addEntry (entriesOf master).2 listed)) :
    line ∈ playlistLines master ∨
      line = listed.info (firstVideo (entriesOf master).2) ∨ line = listed.uri := by
  have hlines := mem_of_mem_entriesFrom (playlistLines master) false
  rw [← entriesOf_eq] at hlines
  rcases mem_masterLines.mp hline with hhead | ⟨entry, hentry, hline⟩
  · exact Or.inl (hlines.1 line hhead)
  · rcases mem_addEntry.mp hentry with hold | rfl
    · obtain ⟨-, hfirst, hsecond⟩ := hlines.2 entry hold
      rcases hline with rfl | rfl
      · exact Or.inl hfirst
      · exact Or.inl hsecond
    · exact Or.inr hline

theorem breakFree_firstVideo (master : String) : BreakFree (firstVideo (entriesOf master).2) := by
  rcases firstVideo_cases (entriesOf master).2 with hnone | ⟨entry, hentry, hfirst⟩
  · rw [hnone]
    exact fun c hc => by simp at hc
  · rw [← hfirst]
    have hmem := ((mem_of_mem_entriesFrom (playlistLines master) false).2 entry hentry).2.1
    exact (mem_playlistLines hmem).2.2

theorem newLines_ne_nil (master : String) (listed : Listed) :
    masterLines (entriesOf master).1 (addEntry (entriesOf master).2 listed) ≠ [] := by
  intro hnil
  have hmem : listed.uri ∈ masterLines (entriesOf master).1
      (addEntry (entriesOf master).2 listed) :=
    mem_masterLines.mpr (Or.inr ⟨_, mem_addEntry.mpr (Or.inr rfl), Or.inr rfl⟩)
  rw [hnil] at hmem
  exact absurd hmem (List.not_mem_nil)

theorem breakFree_newLines {master line : String} {listed : Listed} (hplain : listed.Plain)
    (hline : line ∈ masterLines (entriesOf master).1 (addEntry (entriesOf master).2 listed)) :
    BreakFree line := by
  rcases mem_newLines hline with hold | rfl | rfl
  · exact (mem_playlistLines hold).2.2
  · exact breakFree_info hplain (breakFree_firstVideo master)
  · exact breakFree_uri _

theorem playlistLines_addToMaster {master : String} {listed : Listed} (hplain : listed.Plain)
    (hnew : contains master listed.uri = false) : playlistLines (addToMaster master listed) =
      masterLines (entriesOf master).1 (addEntry (entriesOf master).2 listed) := by
  rw [addToMaster_of_not_contains hnew]
  refine playlistLines_joinLines (newLines_ne_nil master listed) fun line hline =>
    ⟨?_, breakFree_newLines hplain hline⟩
  rcases mem_newLines hline with hold | rfl | rfl
  · exact (mem_playlistLines hold).2.1
  · exact strip_info_ne _ _
  · exact strip_uri_ne _

/-- Read back, the playlist has its head, and its entries with the new one among them. -/
theorem entriesOf_addToMaster {master : String} {listed : Listed} (hplain : listed.Plain)
    (hentries : (entriesOf master).2 ≠ []) (hnew : contains master listed.uri = false) :
    entriesOf (addToMaster master listed) =
      ((entriesOf master).1, addEntry (entriesOf master).2 listed) := by
  rw [entriesOf_eq (addToMaster master listed), playlistLines_addToMaster hplain hnew]
  refine entriesFrom_masterLines ?_ fun entry hentry => ?_
  · exact (head_entriesFrom (playlistLines master) false).2 hentries
  · rcases mem_addEntry.mp hentry with hold | rfl
    · exact ((mem_of_mem_entriesFrom (playlistLines master) false).2 entry hold).1
    · exact startsWith_info _ _

theorem contains_of_mem_playlistLines {master line pattern : String}
    (hline : line ∈ playlistLines master) (hpattern : contains line pattern = true) :
    contains master pattern = true :=
  contains_of_mem_splitLines (mem_playlistLines hline).1 hpattern

/-- The URI of a rendition occurs in the new playlist if it did before, or was added. -/
theorem contains_addToMaster {master : String} {listed : Listed} (hplain : listed.Plain)
    {kind : RenditionKind} {rung : ℕ}
    (huri : contains (addToMaster master listed) (renditionUri kind rung) = true) :
    contains master (renditionUri kind rung) = true ∨ renditionUri kind rung = listed.uri := by
  cases hnew : contains master listed.uri with
  | true =>
      rw [addToMaster, if_pos hnew] at huri
      exact Or.inl huri
  | false =>
      have hslash : '/' ∈ (renditionUri kind rung).toList := by simp [toList_renditionUri]
      have hne : renditionUri kind rung ≠ "" := by
        intro hempty
        simp [hempty] at hslash
      have hbreak : '\n' ∉ (renditionUri kind rung).toList := fun hc =>
        absurd (renditionUri_chars kind rung hc).1 (by decide)
      rw [addToMaster_of_not_contains hnew,
        contains_joinLines (newLines_ne_nil master listed) hne hbreak] at huri
      obtain ⟨line, hline, huri⟩ := huri
      rcases mem_newLines hline with hold | rfl | rfl
      · exact Or.inl (contains_of_mem_playlistLines hold huri)
      · have hfirst := contains_info hplain huri
        rcases firstVideo_cases (entriesOf master).2 with hnone | ⟨entry, hentry, hentryFirst⟩
        · rw [hnone, contains, decide_eq_true_eq] at hfirst
          exact absurd (hfirst.subset hslash) (by simp)
        · rw [← hentryFirst] at hfirst
          have hmem := ((mem_of_mem_entriesFrom (playlistLines master) false).2 entry hentry).2.1
          exact Or.inl (contains_of_mem_playlistLines hmem hfirst)
      · exact Or.inr (renditionUri_eq_of_contains huri).symm

end Worker
end MediaPlayer
