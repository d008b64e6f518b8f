/-
Module: Lexicon.Proofs.Dictionary.Accounts
Layer: Proofs
Purpose: How the bytes of the records are accounted for: those of current records, those that are
  counted as superseded, and those that were dead already when the dictionary was opened.
Imports: Lexicon.Proofs.Dictionary.Compaction, Lexicon.Proofs.Dictionary.Holdings,
  Mathlib.Order.Interval.Finset.Nat
Trusted boundary: none
Main exports: Extent.gaps, Extent.card_gaps, Dictionary.unaccounted, Dictionary.deadBytes,
  Dictionary.Genuine.unaccounted_perform, Dictionary.Genuine.records_accounted
-/
import Lexicon.Proofs.Dictionary.Compaction
import Lexicon.Proofs.Dictionary.Holdings
import Mathlib.Order.Interval.Finset.Nat

namespace Lexicon

open Vocabulary

/-! ### Bytes that are covered -/

namespace Extent

instance (extent : Extent) (index : Nat) : Decidable (extent.Covers index) :=
  inferInstanceAs (Decidable (_ ∧ _))

/-- The first places of a row that none of some extents covers. -/
def gaps (extents : List Extent) (size : Nat) : Finset Nat :=
  (Finset.range size).filter fun index => ∀ extent ∈ extents, ¬ extent.Covers index

variable {extents : List Extent} {size : Nat}

theorem mem_gaps {index : Nat} :
    index ∈ gaps extents size ↔ index < size ∧ ∀ extent ∈ extents, ¬ extent.Covers index := by
  rw [gaps, Finset.mem_filter, Finset.mem_range]

/-- Where no two extents share anything, they and the gaps between them make up the whole. -/
theorem card_gaps (apart : extents.Pairwise Apart)
    (inside : ∀ extent ∈ extents, extent.first + extent.length ≤ size) :
    (gaps extents size).card + (extents.map Extent.length).sum = size := by
  induction extents with
  | nil => simp [gaps]
  | cons extent extents ih =>
      obtain ⟨alone, apart⟩ := List.pairwise_cons.mp apart
      obtain ⟨here, inside⟩ := List.forall_mem_cons.mp inside
      have rest := ih apart inside
      -- The first extent fills a gap that the others leave.
      have within : Finset.Ico extent.first (extent.first + extent.length) ⊆ gaps extents size := by
        intro index covered
        rw [Finset.mem_Ico] at covered
        refine mem_gaps.mpr ⟨by omega, fun other among covers => ?_⟩
        exact alone other among index ⟨covered, covers⟩
      have less : gaps (extent :: extents) size =
          gaps extents size \ Finset.Ico extent.first (extent.first + extent.length) := by
        ext index
        rw [Finset.mem_sdiff, mem_gaps, mem_gaps, Finset.mem_Ico, List.forall_mem_cons]
        exact ⟨fun ⟨here, apart, rest⟩ => ⟨⟨here, rest⟩, apart⟩,
          fun ⟨⟨here, rest⟩, apart⟩ => ⟨here, apart, rest⟩⟩
      have counted := Finset.card_sdiff_add_card_eq_card within
      rw [Nat.card_Ico, Nat.add_sub_cancel_left] at counted
      rw [less, List.map_cons, List.sum_cons]
      omega

end Extent

/-! ### The account -/

namespace Dictionary

/-- The bytes in the buffer of the records that are neither part of a current record nor counted as
superseded. -/
def unaccounted (dictionary : Dictionary) : Int :=
  dictionary.content.records.size - (dictionary.currentRecords.map Extent.length).sum -
    dictionary.superseded

/-- The bytes in the buffer of the records that are part of no current record. -/
def deadBytes (dictionary : Dictionary) : Nat :=
  (Extent.gaps dictionary.currentRecords dictionary.content.records.size).card

section Account

variable {dictionary after : Dictionary} {vocabulary next : Vocabulary} {word : Word}
  {unigram : Unigram} {bigram : Bigram} {room : Nat}

theorem unaccounted_cleared (dictionary : Dictionary) :
    dictionary.cleared.unaccounted = dictionary.unaccounted := by
  rw [unaccounted, unaccounted, currentRecords_cleared]
  rfl

/-- Noting damage moves no bytes. -/
theorem Noted.unaccounted (noted : Noted dictionary after) :
    after.unaccounted = dictionary.unaccounted := by
  have same : after.cleared = dictionary.cleared := by
    rw [noted]
    rfl
  rw [← unaccounted_cleared, same, unaccounted_cleared]

/-- What current records take is what is known takes. -/
theorem Represents.unaccounted_eq (represents : dictionary.Represents vocabulary) :
    dictionary.unaccounted = dictionary.content.records.size -
      recordBytes dictionary.version vocabulary - dictionary.superseded := by
  rw [unaccounted, represents.sum_length_currentRecords]

/-- A change is accounted for if it appends the bytes of the records that are new, and counts those of
the records that are current no more. -/
theorem Represents.unaccounted_of_balance (represents : dictionary.Represents vocabulary)
    (changed : Changed dictionary after next room)
    (balance : after.content.records.size + recordBytes dictionary.version vocabulary +
        dictionary.superseded =
      dictionary.content.records.size + recordBytes dictionary.version next + after.superseded) :
    after.unaccounted = dictionary.unaccounted := by
  rw [represents.unaccounted_eq, changed.represents.unaccounted_eq, Dictionary.version,
    changed.header, ← Dictionary.version]
  omega

/-! ### What changes supersede -/

/-- Replacing a unigram supersedes its old record, as long as it is read to be. -/
theorem meets_superseded_replaceUnigram (offset : Nat) (record : List UInt8) :
    Meets (Noted dictionary) (replaceUnigram offset record)
      (fun _ after => after.superseded = dictionary.superseded +
        ((dictionary.unigramExtent offset).map Extent.length).getD 0)
      fun _ _ => True := by
  refine .get_bind fun state noted => ?_
  rw [noted]
  refine (meets_reading _).bind fun terminal => .given fun read => ?_
  cases terminal with
  | none => exact .throw fun _ _ => trivial
  | some terminal =>
      refine .check_bind (fun _ _ => ?_) fun _ _ _ _ => trivial
      refine (meets_reading _).bind fun old => .given fun again state noted => ?_
      have terminalRead : (dictionary.readTerminal offset).value = some terminal := read.symm
      have recordRead : (dictionary.readUnigram terminal.unigram).value = old := again.symm
      rw [noted, unigramExtent, terminalRead, Option.bind_some, recordRead, Option.map_map]
      rfl

/-- So many bytes are superseded. -/
abbrev Supersedes (superseded : Nat) (dictionary : Dictionary) : Prop :=
  dictionary.superseded = superseded

/-- Inserting a word supersedes nothing. -/
theorem preserves_superseded_insertUnigram (superseded : Nat) (word : Word) (record : List UInt8) :
    Preserves (Supersedes superseded) (insertUnigram word record) :=
  .bind .get fun _ => .bind (.require _ _) fun _ => .bind (.check _) fun _ =>
    .bind (.onPart fun _ same => same) fun _ => .modify fun _ same => same

/-- Storing a bigram supersedes the record of the one that was there. -/
theorem meets_superseded_storeBigram (source target : Nat) (record : List UInt8) :
    Meets (Noted dictionary) (storeBigram source target record)
      (fun _ after => after.superseded = dictionary.superseded +
        if dictionary.hasBigram source target then BigramRecord.size dictionary.version else 0)
      fun _ _ => True := by
  have filed : ∀ record, Meets (Noted dictionary) (onFollowers (fileBigram source target record))
      (fun _ => Supersedes dictionary.superseded) fun _ _ => True := fun record =>
    .of_preserves (.onPart fun _ same => same) (fun _ noted => noted.superseded)
      fun _ _ _ => trivial
  have recorded : ∀ change, Meets (Supersedes dictionary.superseded) (onContent change)
      (fun _ => Supersedes dictionary.superseded) fun _ _ => True := fun change =>
    .modify fun _ same => same
  refine .get_bind fun state noted => ?_
  rw [noted]
  dsimp only
  split
  next known =>
    have there : dictionary.hasBigram source target = true := known
    rw [if_pos there]
    refine .check_bind (fun _ _ => ?_) fun _ _ _ _ => trivial
    exact (filed _).bind fun _ => (recorded _).bind fun _ =>
      .modify fun _ same => congrArg (· + _) same
  next unknown =>
    have lacking : ¬ dictionary.hasBigram source target = true := unknown
    rw [if_neg lacking]
    refine .require_bind (fun _ => ?_) fun _ _ _ => trivial
    refine .check_bind (fun _ _ => ?_) fun _ _ _ _ => trivial
    exact (filed _).bind fun _ => (recorded _).bind fun _ => recorded _

/-- Taking a bigram away supersedes its record, if there is one. -/
theorem meets_superseded_dropBigram (source target : Nat) :
    Meets (Noted dictionary) (dropBigram source target)
      (fun _ after => after.superseded = dictionary.superseded +
        if dictionary.hasBigram source target then BigramRecord.size dictionary.version else 0)
      fun _ _ => True := by
  refine .get_bind fun state noted => ?_
  rw [noted]
  have along : ({ dictionary with damaged := state.damaged } : Dictionary).followerTable source =
      dictionary.followerTable source := rfl
  rw [along, hasBigram]
  cases dictionary.followerTable source with
  | none => exact .pure fun _ noted => noted.superseded
  | some table =>
      have erased : Meets (Noted dictionary)
          (onFollowers (Mutation.ofChange fun followers =>
            let erased := followers.erase table (wordKey target)
            (.ok erased.1, erased.2)))
          (fun removed after =>
            removed = dictionary.content.followers.contains table (wordKey target) ∧
              Supersedes dictionary.superseded after)
          fun _ _ => True := by
        refine .onPart fun state noted => ⟨?_, noted.superseded⟩
        rw [noted.content]
        exact Forest.fst_erase _ _ _
      refine erased.bind_eq (.ite (fun there => ?_) fun lacking => ?_)
      · simp only [if_pos there]
        exact .bind (.modify fun _ same => same) fun _ => .modify fun _ same => congrArg (· + _) same
      · simp only [if_neg lacking]
        exact .pure fun _ same => same

/-! Whatever is to be shown of an addition or a removal is to be shown of what it does once its
arguments are checked and its words are looked up. -/

section Cases

variable {gives : Unit → Dictionary → Prop}

/-- A word that has to be stored is found. -/
theorem meets_require_found (word : Word) :
    Meets (Noted dictionary) (require word)
      (fun offset after => (dictionary.find word).value = some offset ∧ Noted dictionary after)
      fun _ _ => True :=
  (@meets_require dictionary (dictionary.bigramDemand word word) word).weaken
    (fun _ _ given => given) fun _ _ _ => trivial

theorem meets_addUnigram_cases
    (replaces : ∀ offset, checkUnigram word unigram = .ok () →
      (dictionary.find word).value = some offset →
        Meets (Noted dictionary) (replaceUnigram offset (unigram.encode dictionary.version)) gives
          fun _ _ => True)
    (inserts : (dictionary.find word).value = none →
      Meets (Noted dictionary) (insertUnigram word (unigram.encode dictionary.version)) gives
        fun _ _ => True) :
    Meets (Noted dictionary) (Dictionary.addUnigram word unigram) gives fun _ _ => True := by
  refine .get_bind fun state noted => ?_
  rw [noted]
  refine .check_bind (fun _ _ => ?_) fun _ _ _ _ => trivial
  refine .check_bind (fun _ checked => ?_) fun _ _ _ _ => trivial
  refine (meets_reading _).bind fun found => .given fun read => ?_
  cases found with
  | none => exact inserts read.symm
  | some offset => exact replaces offset checked read.symm

theorem meets_addBigram_cases
    (stores : ∀ source target, (dictionary.find word).value = some source →
      (dictionary.find bigram.target).value = some target →
        Meets (Noted dictionary) (storeBigram source target (bigram.encode dictionary.version)) gives
          fun _ _ => True) :
    Meets (Noted dictionary) (Dictionary.addBigram word bigram) gives fun _ _ => True := by
  refine .get_bind fun state noted => ?_
  rw [noted]
  refine .check_bind (fun _ _ => ?_) fun _ _ _ _ => trivial
  refine .check_bind (fun _ _ => ?_) fun _ _ _ _ => trivial
  refine (meets_require_found word).bind fun source => .given fun found => ?_
  exact (meets_require_found bigram.target).bind fun target => .given (stores source target found)

theorem meets_removeBigram_cases {first second : Word}
    (drops : ∀ source target, (dictionary.find first).value = some source →
      (dictionary.find second).value = some target →
        Meets (Noted dictionary) (dropBigram source target) gives fun _ _ => True) :
    Meets (Noted dictionary) (Dictionary.removeBigram first second) gives fun _ _ => True := by
  refine .get_bind fun state noted => ?_
  rw [noted]
  refine .check_bind (fun _ _ => ?_) fun _ _ _ _ => trivial
  refine .check_bind (fun _ _ => ?_) fun _ _ _ _ => trivial
  refine .check_bind (fun _ _ => ?_) fun _ _ _ _ => trivial
  refine (meets_require_found first).bind fun source => .given fun found => ?_
  exact (meets_require_found second).bind fun target => .given (drops source target found)

end Cases

/-- Adding a bigram supersedes the record of one that is there. -/
theorem superseded_addBigram_of_ok
    (done : (Dictionary.addBigram word bigram).apply dictionary = (.ok (), after)) :
    after.superseded = dictionary.superseded +
      if dictionary.relates word bigram.target then BigramRecord.size dictionary.version else 0 := by
  have meets : Meets (Noted dictionary) (Dictionary.addBigram word bigram)
      (fun _ => Supersedes (dictionary.superseded +
        if dictionary.relates word bigram.target then BigramRecord.size dictionary.version else 0))
      fun _ _ => True := by
    refine meets_addBigram_cases fun source target found foundTarget => ?_
    rw [relates, found, foundTarget]
    exact meets_superseded_storeBigram source target _
  exact (meets.outcome (.refl dictionary) done).1 () rfl

/-- Removing a bigram supersedes its record. -/
theorem superseded_removeBigram_of_ok {first second : Word}
    (done : (Dictionary.removeBigram first second).apply dictionary = (.ok (), after)) :
    after.superseded = dictionary.superseded +
      if dictionary.relates first second then BigramRecord.size dictionary.version else 0 := by
  have meets : Meets (Noted dictionary) (Dictionary.removeBigram first second)
      (fun _ => Supersedes (dictionary.superseded +
        if dictionary.relates first second then BigramRecord.size dictionary.version else 0))
      fun _ _ => True := by
    refine meets_removeBigram_cases fun source target found foundTarget => ?_
    rw [relates, found, foundTarget]
    exact meets_superseded_dropBigram source target
  exact (meets.outcome (.refl dictionary) done).1 () rfl

/-- Adding a unigram supersedes the record of what was known about the word. -/
theorem Represents.superseded_addUnigram (represents : dictionary.Represents vocabulary)
    (done : (Dictionary.addUnigram word unigram).apply dictionary = (.ok (), after)) :
    after.superseded =
      dictionary.superseded + unigramBytes dictionary.version vocabulary word := by
  have meets : Meets (Noted dictionary) (Dictionary.addUnigram word unigram)
      (fun _ => Supersedes
        (dictionary.superseded + unigramBytes dictionary.version vocabulary word))
      fun _ _ => True := by
    rw [unigramBytes]
    refine meets_addUnigram_cases (fun offset _ found => ?_) fun new => ?_
    · rw [represents.find, Reading.value_pure] at found
      obtain ⟨old, known⟩ := Option.isSome_iff_exists.mp
        (isSome_unigram?.mpr (isSome_placeIn.mp (by rw [found]; rfl)))
      obtain ⟨_, terminal, place, _, extent⟩ := represents.unigramExtent_eq known
      cases place.symm.trans found
      have replaced := @meets_superseded_replaceUnigram dictionary offset
        (unigram.encode dictionary.version)
      rw [extent] at replaced
      rw [known]
      exact replaced
    · rw [represents.find, Reading.value_pure, placeIn_eq_none, ← unigram?_eq_none] at new
      rw [new]
      exact .of_preserves (preserves_superseded_insertUnigram _ _ _)
        (fun _ noted => noted.superseded) fun _ _ _ => trivial
  exact (meets.outcome (.refl dictionary) done).1 () rfl

/-- Adding a bigram supersedes the record of what was known about the two words. -/
theorem Represents.superseded_addBigram (represents : dictionary.Represents vocabulary)
    (done : (Dictionary.addBigram word bigram).apply dictionary = (.ok (), after)) :
    after.superseded = dictionary.superseded +
      bigramBytes dictionary.version vocabulary (word, bigram.target) := by
  have meets : Meets (Noted dictionary) (Dictionary.addBigram word bigram)
      (fun _ => Supersedes (dictionary.superseded +
        bigramBytes dictionary.version vocabulary (word, bigram.target)))
      fun _ _ => True := by
    refine meets_addBigram_cases fun source target found foundTarget => ?_
    rw [represents.find] at found foundTarget
    have stored := @meets_superseded_storeBigram dictionary source target
      (bigram.encode dictionary.version)
    simp only [represents.hasBigram found foundTarget, decide_eq_true_eq] at stored
    exact stored
  exact (meets.outcome (.refl dictionary) done).1 () rfl

/-! ### What changes leave unaccounted -/

/-- A change that does not heed damage leaves as much unaccounted as it does where none is noted. -/
theorem Heedless.unaccounted {change : Mutation Dictionary Unit} (heedless : Heedless change)
    (same : (change.apply dictionary.cleared).2.unaccounted = dictionary.cleared.unaccounted) :
    (change.apply dictionary).2.unaccounted = dictionary.unaccounted := by
  rw [← unaccounted_cleared (change.apply dictionary).2, (heedless.apply_cleared dictionary).2,
    unaccounted_cleared, same, unaccounted_cleared]

theorem Represents.unaccounted_addUnigram (represents : dictionary.Represents vocabulary)
    (word : Word) (unigram : Unigram) :
    ((Dictionary.addUnigram word unigram).apply dictionary).2.unaccounted =
      dictionary.unaccounted := by
  refine (represents.addUnigram word unigram).holds (·.unaccounted = dictionary.unaccounted) rfl
    fun done changed => represents.unaccounted_of_balance changed ?_
  have records := (represents.unigramStored done).size_records
  have superseded := represents.superseded_addUnigram done
  have known := @recordBytes_store dictionary.version _ represents.content.distinct word
    (unigram.kept dictionary.version)
  rw [unigramSize_kept] at known
  omega

theorem Represents.unaccounted_addBigram (represents : dictionary.Represents vocabulary)
    (first : Word) (bigram : Bigram) :
    ((Dictionary.addBigram first bigram).apply dictionary).2.unaccounted =
      dictionary.unaccounted := by
  refine (represents.addBigram first bigram).holds (·.unaccounted = dictionary.unaccounted) rfl
    fun done changed => represents.unaccounted_of_balance changed ?_
  have records := (represents.bigramStored done).size_records
  have superseded := represents.superseded_addBigram done
  have known := @recordBytes_relate dictionary.version vocabulary first bigram.target
    (bigram.record dictionary.version)
  omega

theorem Represents.unaccounted_removeBigram (represents : dictionary.Represents vocabulary)
    (first second : Word) :
    ((Dictionary.removeBigram first second).apply dictionary).2.unaccounted =
      dictionary.unaccounted := by
  refine (represents.removeBigram first second).holds (·.unaccounted = dictionary.unaccounted) rfl
    fun done changed => represents.unaccounted_of_balance changed ?_
  have unfiled := represents.unfiled done
  have superseded := unfiled.superseded
  have known := @recordBytes_erase dictionary.version vocabulary (first, second)
  rw [bigramBytes] at known
  rw [unfiled.records]
  omega

end Account

/-! ### All operations -/

section Operations

variable {dictionary : Dictionary} {session : Session}

/-- No request changes what is unaccounted. -/
theorem Genuine.unaccounted_step (genuine : Genuine session.dictionary) (request : Request) :
    (session.step request).2.dictionary.unaccounted = session.dictionary.unaccounted := by
  obtain ⟨vocabulary, content⟩ := genuine.sturdy.1
  have represents : session.dictionary.cleared.Represents vocabulary := ⟨content, rfl⟩
  cases request with
  | addUnigram word unigram =>
      exact (Heedless.addUnigram word unigram).unaccounted
        (represents.unaccounted_addUnigram word unigram)
  | addBigram first bigram =>
      exact (Heedless.addBigram first bigram).unaccounted
        (represents.unaccounted_addBigram first bigram)
  | removeBigram first second =>
      exact (Heedless.removeBigram first second).unaccounted
        (represents.unaccounted_removeBigram first second)
  | probability | bigramProbability | property | next =>
      exact ((Noted.refl session.dictionary).note _).unaccounted
  | query => rfl

/-- So it is with any number of them. -/
theorem Genuine.unaccounted_run (genuine : Genuine session.dictionary) (requests : List Request) :
    (session.run requests).2.dictionary.unaccounted = session.dictionary.unaccounted := by
  induction requests generalizing session with
  | nil => rfl
  | cons request requests ih =>
      have next : Genuine (session.step request).2.dictionary :=
        genuine.performed session.tokens (.request request)
      exact (ih next).trans (genuine.unaccounted_step request)

/-- A compaction that is refused moves no bytes, and after one that is made all are accounted for. -/
theorem Genuine.unaccounted_compact (genuine : Genuine dictionary) :
    (compact.apply dictionary).2.unaccounted =
      match (compact.apply dictionary).1 with
      | .ok () => 0
      | .error _ => dictionary.unaccounted := by
  cases damaged : dictionary.damaged with
  | true =>
      rw [compact, Mutation.apply_ofChange, if_pos damaged]
  | false =>
      obtain ⟨vocabulary, content⟩ := genuine.sturdy.1
      have represents : dictionary.Represents vocabulary := ⟨content, damaged⟩
      rw [represents.compact_eq]
      split
      next fresh filled =>
        obtain ⟨packed, version⟩ := packed_of_fill content filled
        have after : Represents { dictionary with content := fresh.content, superseded := 0 }
            vocabulary := by
          refine ⟨?_, damaged⟩
          have known := packed.represents.content
          rwa [version] at known
        have records := packed.records
        rw [version] at records
        rw [after.unaccounted_eq]
        show (fresh.content.records.size : Int) - recordBytes dictionary.header.version vocabulary -
          (0 : Nat) = 0
        omega
      next => rfl

/-- Where a rebuild succeeds, all bytes are accounted for, whatever comes of writing the file. -/
theorem Genuine.unaccounted_flushCompacted (genuine : Genuine dictionary) (directory : Directory)
    (name : String) :
    (dictionary.flushCompacted directory name).2.1.unaccounted =
      match dictionary.rebuilt with
      | .ok () => 0
      | .error _ => dictionary.unaccounted := by
  have compacted := genuine.unaccounted_compact
  rw [Dictionary.flushCompacted, rebuilt]
  cases dictionary.checkUpdatable with
  | error error => rfl
  | ok =>
      change _ = match (compact.apply dictionary).1 with
        | .ok () => 0
        | .error _ => dictionary.unaccounted
      dsimp only
      generalize compact.apply dictionary = outcome at compacted
      obtain ⟨answer, after⟩ := outcome
      cases answer with
      | error error => exact compacted
      | ok => exact compacted

/-- Whether an operation rebuilds the dictionary, also if it fails to write the file then. -/
def Operation.Rebuilds (dictionary : Dictionary) : Operation → Prop
  | .flushCompacted _ _ => dictionary.rebuilt = .ok ()
  | _ => False

/-- No operation changes what is unaccounted, but for one that rebuilds the dictionary. -/
theorem Genuine.unaccounted_perform (genuine : Genuine session.dictionary) {operation : Operation}
    (keeps : ¬ operation.Rebuilds session.dictionary) :
    (session.perform operation).dictionary.unaccounted = session.dictionary.unaccounted := by
  cases operation with
  | request request => exact genuine.unaccounted_step request
  | addEntries entries start =>
      obtain ⟨requests, same⟩ := Session.exists_run_addEntries session entries start
      rw [same]
      exact genuine.unaccounted_run requests
  | completions | suggest | predict =>
      exact ((Noted.refl session.dictionary).note _).unaccounted
  | flushCompacted directory name =>
      have flushed := genuine.unaccounted_flushCompacted directory name
      cases outcome : session.dictionary.rebuilt with
      | ok => exact absurd outcome keeps
      | error error =>
          rw [outcome] at flushed
          exact flushed
  | migrate directory target versionNumber partialOutput =>
      exact (migrate_noted _ directory target versionNumber partialOutput).unaccounted

end Operations

/-! ### Reopening -/

section Reopening

variable {dictionary opened : Dictionary}

/-- What is opened from an image has the relations that were stored. -/
theorem Sturdy.followers_reloaded (sturdy : Sturdy dictionary.header dictionary.content)
    (updatable : Bool) (limits : Configuration) (source : Nat) :
    (ofContent dictionary.header dictionary.content.reloaded updatable limits).followers source =
      dictionary.followers source := by
  obtain ⟨_, _, tables, storable⟩ := sturdy
  have nested : dictionary.content.followers.reloaded.nested? Forest.root (wordKey source) =
      dictionary.content.followers.nested? Forest.root (wordKey source) := by
    rw [Forest.nested?_eq, Forest.nested?_eq,
      @Forest.under?_copy dictionary.content.followers dictionary.content.followers.reloaded rfl]
  have same : (ofContent dictionary.header dictionary.content.reloaded updatable
      limits).followerTable source = dictionary.followerTable source := nested
  rw [followers, followers, same]
  cases found : dictionary.followerTable source with
  | none => rfl
  | some table =>
      have member := storable.sound.nested_mem storable.sound.rooted found
      have listed := storable.entries_reloaded member
      dsimp only
      rw [← listed]
      rfl

/-- It has the same current records. -/
theorem Reopened.currentRecords (reopened : Reopened dictionary opened)
    (sturdy : Sturdy dictionary.header dictionary.content) :
    opened.currentRecords = dictionary.currentRecords := by
  obtain ⟨updatable, limits, rfl⟩ := reopened.eq_reloaded sturdy.decode
  obtain ⟨vocabulary, content⟩ := sturdy.1
  have represents : dictionary.cleared.Represents vocabulary := ⟨content, rfl⟩
  have representsToo := reopened.represents content
  have found : ∀ word, (ofContent dictionary.header dictionary.content.reloaded updatable
      limits).find word = dictionary.find word :=
    fun word => (representsToo.find word).trans (represents.find word).symm
  rw [Dictionary.currentRecords, Dictionary.currentRecords]
  rw [@visited_congr dictionary (ofContent _ dictionary.content.reloaded updatable limits) rfl]
  refine List.flatMap_congr fun word _ => ?_
  rw [recordsOf, recordsOf, found]
  cases (dictionary.find word).value with
  | none => rfl
  | some token =>
      dsimp only
      rw [sturdy.followers_reloaded]
      rfl

/-- A dictionary whose header fits can be stored and opened again. -/
theorem Sturdy.exists_reopened (sturdy : Sturdy dictionary.header dictionary.content)
    (fits : dictionary.header.Storable) : ∃ opened, Reopened dictionary opened := by
  obtain ⟨image, encoded⟩ := sturdy.exists_encode fits
  have some : image ≠ [] := by
    obtain ⟨head, body, _, _, rfl, long⟩ := Image.exists_parts encoded
    exact nofun
  have mapped : Directory.mapFile ⟨[(["m"], .file image.toByteArray)]⟩ "m" =
      .ok image.toByteArray := Directory.mapFile_lone (by decide +kernel) _
  exact ⟨_, ⟨image, _, "m", _, 0, 0, true, .standard, encoded, mapped, window_whole,
    openFile_whole some mapped (sturdy.decode encoded) true .standard⟩⟩

end Reopening

/-! ### The whole account -/

section Account

variable {dictionary opened : Dictionary}

/-- The bytes of the records, item by item: each unigram and each bigram that is counted has one
current record, which shares no byte with another one, and the bytes of none are those that are
unaccounted or superseded. -/
structure Itemized (dictionary : Dictionary) : Prop where
  apart : dictionary.currentRecords.Pairwise Extent.Apart
  inside : ∀ extent ∈ dictionary.currentRecords,
    extent.first + extent.length ≤ dictionary.content.records.size
  each : dictionary.currentRecords.length =
    dictionary.content.unigramCount + dictionary.content.bigramCount
  dead : (dictionary.deadBytes : Int) = dictionary.unaccounted + dictionary.superseded

theorem Genuine.itemized (genuine : Genuine dictionary) : dictionary.Itemized := by
  obtain ⟨vocabulary, orderly⟩ := genuine.orderly
  have represents : dictionary.cleared.Represents vocabulary := ⟨orderly.represents, rfl⟩
  obtain ⟨apart, inside⟩ := represents.currentRecords_apart orderly
  have each := represents.length_currentRecords
  rw [currentRecords_cleared] at apart inside each
  refine ⟨apart, inside, each, ?_⟩
  have whole := Extent.card_gaps apart inside
  change dictionary.deadBytes + _ = dictionary.content.records.size at whole
  rw [unaccounted]
  omega

/-- A dictionary that was created holds no records. -/
theorem unaccounted_create {number : Nat} {locale : String} {attributes : Attributes}
    {limits : Configuration} (created : create number locale attributes limits = .ok dictionary) :
    dictionary.unaccounted = 0 := by
  obtain ⟨version, _, rfl⟩ := create_eq_ok_iff.mp created
  rw [(represents_empty _ limits).unaccounted_eq]
  simp [recordBytes, empty, ofContent]

/-- What is opened from the image of a dictionary has superseded nothing yet, and so its dead bytes are
those that are unaccounted. -/
theorem Genuine.unaccounted_reopened (genuine : Genuine dictionary)
    (reopened : Reopened dictionary opened) :
    opened.superseded = 0 ∧ opened.currentRecords = dictionary.currentRecords ∧
      opened.deadBytes = dictionary.deadBytes ∧ opened.unaccounted = opened.deadBytes := by
  have sturdy := genuine.sturdy
  obtain ⟨_, content⟩ := sturdy.1
  obtain ⟨_, copied, none, _⟩ := reopened.copied content
  have same := reopened.currentRecords sturdy
  have dead := (genuine.opened reopened).itemized.dead
  refine ⟨none, same, ?_, ?_⟩
  · rw [deadBytes, deadBytes, same, copied.records]
  · rw [none] at dead
    omega

/-- The bytes of overwritten and removed records are counted as superseded, each once.  What the
buffer of the records holds beyond the current records and the superseded bytes is nothing when a
dictionary is created and whenever it was rebuilt, also if writing the file failed then; and no other
operation changes it: no addition, removal or question, nothing that is refused and no rebuild that
fails.  Flushing without a rebuild leaves the dictionary as it is.  Where a dictionary is opened from
an image, what is beyond are the dead bytes of the image.  Current records never share a byte. -/
theorem Genuine.records_accounted (genuine : Genuine dictionary) :
    (∀ {number : Nat} {locale : String} {attributes : Attributes} {limits : Configuration}
      {created : Dictionary}, create number locale attributes limits = .ok created →
        created.unaccounted = 0) ∧
    (∀ directory name, dictionary.rebuilt = .ok () →
      (dictionary.flushCompacted directory name).2.1.unaccounted = 0) ∧
    (∀ tokens operation, ¬ operation.Rebuilds dictionary →
      ((Session.mk dictionary tokens).perform operation).dictionary.unaccounted =
        dictionary.unaccounted) ∧
    (∀ opened, Reopened dictionary opened →
      opened.superseded = 0 ∧ opened.currentRecords = dictionary.currentRecords ∧
        opened.deadBytes = dictionary.deadBytes ∧ opened.unaccounted = opened.deadBytes) ∧
    dictionary.Itemized := by
  refine ⟨unaccounted_create, fun directory name done => ?_, fun tokens operation keeps => ?_,
    fun opened => genuine.unaccounted_reopened, genuine.itemized⟩
  · have flushed := genuine.unaccounted_flushCompacted directory name
    rwa [done] at flushed
  · exact @Genuine.unaccounted_perform (Session.mk dictionary tokens) genuine operation keeps

/-- A word was overwritten, and a bigram was removed and added again: four bytes are superseded.  In
what is opened from the image they are dead, and removing the bigram supersedes only its record. -/
theorem Genuine.records_accounted_winding :
    ∃ opened, Genuine (reached .standard winding) ∧
      (reached .standard winding).currentRecords = [⟨7, 3⟩, ⟨10, 1⟩, ⟨3, 3⟩] ∧
      (reached .standard winding).superseded = 4 ∧ (reached .standard winding).unaccounted = 0 ∧
      (reached .standard winding).rebuilt = .ok () ∧
      ((reached .standard winding).flushCompacted .empty "m").2.1.unaccounted = 0 ∧
      Reopened (reached .standard winding) opened ∧ opened.superseded = 0 ∧
      opened.unaccounted = 4 ∧
      ((Session.mk opened [0]).perform
        (.request (.removeBigram [97] [98]))).dictionary.unaccounted = 4 := by
  have genuine := genuine_reached .standard winding
  have records : (reached .standard winding).currentRecords = [⟨7, 3⟩, ⟨10, 1⟩, ⟨3, 3⟩] := by
    decide +kernel
  have superseded : (reached .standard winding).superseded = 4 := by decide +kernel
  have unaccounted : (reached .standard winding).unaccounted = 0 := by decide +kernel
  have rebuilt : (reached .standard winding).rebuilt = .ok () := by decide +kernel
  have fits : (reached .standard winding).header.Storable := by
    rw [header_reached]
    exact ⟨by decide, by decide, nofun, nofun⟩
  obtain ⟨opened, reopened⟩ := genuine.sturdy.exists_reopened fits
  obtain ⟨_, compacts, _, reopens, itemized⟩ := genuine.records_accounted
  obtain ⟨none, _, same, dead⟩ := reopens opened reopened
  obtain ⟨_, _, performs, _⟩ := (genuine.opened reopened).records_accounted
  have four : opened.unaccounted = 4 := by
    have all := itemized.dead
    rw [unaccounted, superseded] at all
    omega
  exact ⟨opened, genuine, records, superseded, unaccounted, rebuilt, compacts .empty "m" rebuilt,
    reopened, none, four, (performs [0] (.request (.removeBigram [97] [98])) id).trans four⟩

end Account

end Dictionary

end Lexicon
