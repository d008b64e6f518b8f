/-
Module: Lexicon.Proofs.Dictionary.InPlace
Layer: Proofs
Purpose: Records where they stand, between any other bytes: what was written is read back, walks and
  the count of superseded bytes go by the true lengths of records, and a record that is replaced
  leaves everything else as it was.
Imports: Lexicon.Proofs.Overwriting, Lexicon.Proofs.Dictionary.Accounts
Trusted boundary: none
Main exports: Reader.Restores, Terminal.InPlace, Unigram.InPlace, Bigram.InPlace, records_inPlace,
  records_inPlace_replaced
-/
import Lexicon.Proofs.Overwriting
import Lexicon.Proofs.Dictionary.Accounts

namespace Lexicon

open Dictionary

/-- What is written for a value is read back as the value wherever it stands in a buffer, and just its
bytes are taken for it. -/
def Reader.Restores {α : Type} (reader : Reader α) (written : List UInt8) (value : α) : Prop :=
  ∀ (buffer : ByteArray) (before after : List UInt8),
    Buffer.bytes buffer = before ++ written ++ after →
      runAt reader buffer before.length = some (value, written.length)

theorem Reader.Reads.restores {α : Type} {reader : Reader α} {written : List UInt8} {value : α}
    (reads : Reads reader written value) : Restores reader written value :=
  fun _ _ _ content => runAt_of_shows reads (.between content)

/-! ### Terminal records -/

namespace Terminal

/-- A terminal record is read back, a walk goes on right behind its bytes, and its pointer can be
replaced without any change to another record. -/
structure InPlace (terminal : Terminal) : Prop where
  restored : Reader.Restores read terminal.encode terminal
  walked : ∀ (dictionary : Dictionary) (before after : List UInt8),
    Buffer.bytes dictionary.content.terminals = before ++ terminal.encode ++ after →
      dictionary.nextWord before.length =
        pure (terminal.word, if after = [] then 0 else before.length + terminal.encode.length)
  patched : ∀ (buffer : ByteArray) (before after : List UInt8) (pointer : Nat),
    Buffer.bytes buffer = before ++ terminal.encode ++ after →
      pointer < LittleEndian.span 4 →
        Repointed buffer (patch buffer before.length terminal pointer) before.length terminal pointer

variable {terminal : Terminal}

/-- A walk gives the word of a record and the offset behind its bytes. -/
theorem nextWord_eq_of_bytes (storable : terminal.word.Storable)
    (fits : terminal.unigram < LittleEndian.span 4) {dictionary : Dictionary}
    {before after : List UInt8}
    (content : Buffer.bytes dictionary.content.terminals = before ++ terminal.encode ++ after) :
    dictionary.nextWord before.length =
      pure (terminal.word, if after = [] then 0 else before.length + terminal.encode.length) := by
  have read : dictionary.readTerminal before.length = pure (some terminal) := by
    rw [readTerminal, readAt_of_shows storable fits (.between content)]
    rfl
  have length : dictionary.content.terminals.size =
      before.length + terminal.size + after.length := by
    rw [← Buffer.length_bytes, content, List.length_append, List.length_append, length_encode]
  have inside : ¬ dictionary.content.terminals.size ≤ before.length := by
    have positive := terminal.size_pos
    omega
  have ends : dictionary.content.terminals.size ≤ before.length + terminal.size ↔ after = [] := by
    rw [length, ← List.length_eq_zero_iff]
    omega
  rw [nextWord, if_neg inside, read, Reading.pure_bind]
  simp only [ends, length_encode]

theorem inPlace (storable : terminal.word.Storable)
    (fits : terminal.unigram < LittleEndian.span 4) : terminal.InPlace where
  restored := (reads storable fits).restores
  walked := fun _ _ _ content => nextWord_eq_of_bytes storable fits content
  patched := fun _ _ _ _ content fitsNew =>
    repointed_patch (readAt_of_shows storable fits (.between content)) fitsNew

end Terminal

/-! ### Unigram records -/

/-- A word that has a terminal record at an offset, and a unigram record of some length, got another
unigram record.  The length counts as superseded, the terminal record leads to where the new record
stands, and there what was given is read. -/
structure Dictionary.Replaced (before after : Dictionary) (offset : Nat) (terminal : Terminal)
    (length : Nat) (given : Unigram) : Prop where
  superseded : after.superseded = before.superseded + length
  repointed : Terminal.Repointed before.content.terminals after.content.terminals offset terminal
    before.content.records.size
  read : (after.readUnigram before.content.records.size).value =
    some (given.kept before.version, (given.encode before.version).length)

namespace Unigram

/-- A unigram record is read back, and replacing it supersedes just its bytes. -/
structure InPlace (version : FormatVersion) (unigram : Unigram) : Prop where
  restored : Reader.Restores (read version) (unigram.encode version) (unigram.kept version)
  replaced : ∀ {dictionary after : Dictionary} {word : Word} {offset : Nat} {terminal : Terminal}
    {given : Unigram}, dictionary.version = version →
      (dictionary.find word).value = some offset →
      (dictionary.readTerminal offset).value = some terminal →
      Buffer.Shows dictionary.content.records terminal.unigram (unigram.encode version) →
      (addUnigram word given).apply dictionary = (.ok (), after) →
        dictionary.Replaced after offset terminal (unigram.encode version).length given

section Replace

variable {dictionary after : Dictionary} {word : Word} {offset : Nat} {terminal : Terminal}
  {unigram given : Unigram}

theorem superseded_of_found (storable : unigram.Storable)
    (found : (dictionary.find word).value = some offset)
    (read : (dictionary.readTerminal offset).value = some terminal)
    (shows : Buffer.Shows dictionary.content.records terminal.unigram
      (unigram.encode dictionary.version))
    (done : (addUnigram word given).apply dictionary = (.ok (), after)) :
    after.superseded = dictionary.superseded + (unigram.encode dictionary.version).length := by
  have old : (dictionary.readUnigram terminal.unigram).value =
      some (unigram.kept dictionary.version, (unigram.encode dictionary.version).length) := by
    rw [readUnigram, Reading.value_ofRecord, readAt_of_shows storable shows]
  have extent : dictionary.unigramExtent offset =
      some ⟨terminal.unigram, (unigram.encode dictionary.version).length⟩ := by
    rw [unigramExtent, read, Option.bind_some, old, Option.map_some]
  have meets : Meets (Noted dictionary) (addUnigram word given)
      (fun _ => Supersedes
        (dictionary.superseded + (unigram.encode dictionary.version).length))
      fun _ _ => True := by
    refine meets_addUnigram_cases (fun place _ here => ?_) fun new => ?_
    · cases here.symm.trans found
      have replaced := @meets_superseded_replaceUnigram dictionary offset
        (given.encode dictionary.version)
      rw [extent] at replaced
      exact replaced
    · cases new.symm.trans found
  exact (meets.outcome (.refl dictionary) done).1 () rfl

theorem stored_of_found (found : (dictionary.find word).value = some offset)
    (done : (addUnigram word given).apply dictionary = (.ok (), after)) :
    given.Storable ∧ Housed dictionary after (dictionary.unigramDemand word given).room ∧
      UnigramStored dictionary word given after.content := by
  have meets : Meets (Noted dictionary) (addUnigram word given)
      (fun _ after => given.Storable ∧
        Housed dictionary after (dictionary.unigramDemand word given).room ∧
          UnigramStored dictionary word given after.content)
      fun _ _ => True := by
    refine meets_addUnigram_cases (fun place checked here => ?_) fun new => ?_
    · exact (meets_replaceUnigram given here).weaken
        (fun _ _ stored => ⟨(checkUnigram_eq_ok.mp checked).2, stored⟩) fun _ _ _ => trivial
    · cases new.symm.trans found
  exact (meets.outcome (.refl dictionary) done).1 () rfl

/-- Where a word is found, what is stored is a new pointer and a new record behind the others. -/
theorem buffers_of_stored {content : Content}
    (found : (dictionary.find word).value = some offset)
    (read : (dictionary.readTerminal offset).value = some terminal)
    (stored : UnigramStored dictionary word given content) :
    content.terminals = Terminal.patch dictionary.content.terminals offset terminal
        dictionary.content.records.size ∧
      content.records =
        Buffer.append dictionary.content.records (given.encode dictionary.version) := by
  cases stored with
  | replaced foundAgain readAgain =>
      cases found.symm.trans foundAgain
      cases read.symm.trans readAgain
      exact ⟨rfl, rfl⟩
  | inserted new => cases new.symm.trans found

theorem replaced_of_found (storable : unigram.Storable)
    (found : (dictionary.find word).value = some offset)
    (read : (dictionary.readTerminal offset).value = some terminal)
    (shows : Buffer.Shows dictionary.content.records terminal.unigram
      (unigram.encode dictionary.version))
    (done : (addUnigram word given).apply dictionary = (.ok (), after)) :
    dictionary.Replaced after offset terminal (unigram.encode dictionary.version).length given := by
  obtain ⟨storableGiven, housed, stored⟩ := stored_of_found found done
  obtain ⟨terminals, records⟩ := buffers_of_stored found read stored
  have fits : dictionary.content.records.size < LittleEndian.span 4 := by
    have afforded := housed.afforded
    have limit : ceiling dictionary.configuration ≤ maxBufferBytes := Nat.min_le_right _ _
    have largest : maxBufferBytes = 2147483647 := rfl
    have span : LittleEndian.span 4 = 4294967296 := rfl
    rw [usedBytes_eq] at afforded
    omega
  have version : after.version = dictionary.version :=
    congrArg Vocabulary.Terms.version housed.terms
  have place : Terminal.readAt dictionary.content.terminals offset = some terminal := by
    rwa [readTerminal, Reading.value_ofRecord] at read
  refine ⟨superseded_of_found storable found read shows done, ?_, ?_⟩
  · rw [terminals]
    exact Terminal.repointed_patch place fits
  · rw [readUnigram, Reading.value_ofRecord, version, records]
    exact readAt_of_shows storableGiven (.appended _ _)

end Replace

theorem inPlace {unigram : Unigram} (version : FormatVersion) (storable : unigram.Storable) :
    unigram.InPlace version where
  restored := (reads version storable).restores
  replaced := by
    rintro dictionary after word offset terminal given rfl found read shows done
    exact replaced_of_found storable found read shows done

end Unigram

/-! ### Bigram records -/

namespace Bigram

/-- A bigram record is read back, and replacing or removing it supersedes just its bytes.  Where no
bigram was there, nothing is superseded. -/
structure InPlace (version : FormatVersion) (bigram : Bigram) : Prop where
  restored :
    Reader.Restores (BigramRecord.read version) (bigram.encode version) (bigram.record version)
  replaced : ∀ {dictionary after : Dictionary} {first : Word} {given : Bigram},
    dictionary.version = version →
      (addBigram first given).apply dictionary = (.ok (), after) →
        after.superseded = dictionary.superseded +
          if dictionary.relates first given.target then (bigram.encode version).length else 0
  removed : ∀ {dictionary after : Dictionary} {first second : Word},
    dictionary.version = version →
      (removeBigram first second).apply dictionary = (.ok (), after) →
        after.superseded = dictionary.superseded +
          if dictionary.relates first second then (bigram.encode version).length else 0

theorem inPlace {bigram : Bigram} (version : FormatVersion)
    (probable : isProbability bigram.probability = true) : bigram.InPlace version where
  restored := by
    have kept : (bigram.record version).Storable version :=
      ⟨probable, History.kept_kept version bigram.history⟩
    have reads := BigramRecord.reads kept
    rw [BigramRecord.encode_record] at reads
    exact reads.restores
  replaced := by
    rintro dictionary after first given rfl done
    rw [length_encode]
    exact superseded_addBigram_of_ok done
  removed := by
    rintro dictionary after first second rfl done
    rw [length_encode]
    exact superseded_removeBigram_of_ok done

end Bigram

/-! ### All records -/

/-- What was written of a word, a unigram and a bigram that can be stored is read back, wherever the
records stand and whatever is before and behind them, and takes just the bytes that were written.  Of
a history a format keeps what it keeps.  So walks and the count of superseded bytes go by the lengths
of the records; and a new pointer in a terminal record is a new pointer there, and nothing else in any
terminal record. -/
theorem records_inPlace {terminal : Terminal} {unigram : Unigram} {bigram : Bigram}
    (version : FormatVersion) (word : terminal.word.Storable)
    (fits : terminal.unigram < LittleEndian.span 4) (storable : unigram.Storable)
    (probable : isProbability bigram.probability = true) :
    terminal.InPlace ∧ unigram.InPlace version ∧ bigram.InPlace version :=
  ⟨Terminal.inPlace word fits, Unigram.inPlace version storable, Bigram.inPlace version probable⟩

/-- A unigram with all that one can have; the code points of its shortcut are no characters. -/
def Unigram.ornate : Unigram :=
  { probability := 7, notAWord := true, blacklisted := true, history := .typed 9
    shortcuts := [{ target := [-1, 1114112], probability := 15 }] }

/-- A word with such a unigram, another word, and a bigram of them. -/
def Dictionary.inscribing : List Operation :=
  [.request (.addUnigram [97] .ornate),
    .request (.addUnigram [98] { probability := 5 }),
    .request (.addBigram [97] { target := [98], probability := 3 })]

/-- The dictionary that comes of it, in the format with history. -/
def Dictionary.inscribed : Dictionary :=
  ((Session.start (empty ⟨.historical, "en", default⟩ .standard)).drive inscribing).dictionary

/-- The first word is given another unigram: the nineteen bytes of its record are superseded, its
terminal record leads to where the records ended, and that of the other word is as before.  A walk goes
over it in nine bytes, and removing the bigram supersedes seven more. -/
theorem records_inPlace_replaced :
    Word.Storable [97] ∧ 0 < LittleEndian.span 4 ∧ Unigram.ornate.Storable ∧
      isProbability 3 = true ∧
      ∃ after removed,
        (addUnigram [97] { probability := 2 }).apply inscribed = (.ok (), after) ∧
        (removeBigram [97] [98]).apply after = (.ok (), removed) ∧
        inscribed.nextWord 0 = pure ([97], 9) ∧
        after.superseded = 19 ∧ removed.superseded = 26 ∧
        Terminal.readAt after.content.terminals 0 = some ⟨[97], 35⟩ ∧
        Terminal.readAt after.content.terminals 9 = some ⟨[98], 19⟩ := by
  have word : Word.Storable [97] := ⟨nofun, by decide⟩
  have fits : 0 < LittleEndian.span 4 := by decide
  have storable : Unigram.ornate.Storable := by
    refine ⟨by decide, by decide, ?_, ?_⟩
    · intro shortcut among
      rw [List.mem_singleton.mp among]
      exact ⟨nofun, by decide⟩
    · intro shortcut among
      rw [List.mem_singleton.mp among]
      decide
  have probable : isProbability 3 = true := by decide
  obtain ⟨terminal, unigram, bigram⟩ := @records_inPlace ⟨[97], 0⟩ .ornate
    { target := [98], probability := 3 } .historical word fits storable probable
  have letters : Buffer.bytes inscribed.content.terminals =
      [] ++ Terminal.encode ⟨[97], 0⟩ ++ Terminal.encode ⟨[98], 19⟩ := by decide +kernel
  have bytes : Buffer.bytes inscribed.content.records =
      [] ++ Unigram.ornate.encode .historical ++
        (Unigram.encode .historical { probability := 5 } ++
          Bigram.encode .historical { target := [98], probability := 3 }) := by decide +kernel
  have found : (inscribed.find [97]).value = some 0 := by decide +kernel
  have superseded : inscribed.superseded = 0 := by decide +kernel
  have accepted : ((addUnigram [97] { probability := 2 }).apply inscribed).1 = .ok () := by
    decide +kernel
  set after := ((addUnigram [97] { probability := 2 }).apply inscribed).2
  have done : (addUnigram [97] { probability := 2 }).apply inscribed = (.ok (), after) :=
    Prod.ext accepted rfl
  have read : (inscribed.readTerminal 0).value = some ⟨[97], 0⟩ := by decide +kernel
  have size : inscribed.content.records.size = 35 := by decide +kernel
  have replaced := unigram.replaced rfl found read (Buffer.Shows.between bytes) done
  have related : after.relates [97] [98] = true := by decide +kernel
  have undone : ((removeBigram [97] [98]).apply after).1 = .ok () := by decide +kernel
  have walked := terminal.walked inscribed [] (Terminal.encode ⟨[98], 19⟩) letters
  have second : Terminal.readAt inscribed.content.terminals 9 = some ⟨[98], 19⟩ := by
    decide +kernel
  set removed := ((removeBigram [97] [98]).apply after).2
  have cleared : (removeBigram [97] [98]).apply after = (.ok (), removed) := Prod.ext undone rfl
  have lost := bigram.removed rfl cleared
  refine ⟨word, fits, storable, probable, after, removed, done, cleared, walked, ?_, ?_, ?_, ?_⟩
  · rw [replaced.superseded, superseded]
    rfl
  · rw [lost, related, replaced.superseded, superseded]
    rfl
  · rw [replaced.repointed.here, size]
    rfl
  · exact (replaced.repointed.apart (.inr (by decide))).mpr second

end Lexicon
