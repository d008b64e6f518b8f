/-
Module: Lexicon.Proofs.Dictionary.Relations
Layer: Proofs
Purpose: Adding and removing bigrams in a dictionary that represents a vocabulary adds and removes
  them in the vocabulary, and is accepted exactly when the vocabulary accepts it.
Imports: Lexicon.Proofs.Dictionary.Changes
Trusted boundary: none
Main exports: Dictionary.Unfiled, Dictionary.Represents.addBigram,
  Dictionary.Represents.removeBigram
-/
import Lexicon.Proofs.Dictionary.Changes

namespace Lexicon

open Vocabulary Dictionary

/-! ### Contents -/

namespace Content.Represents

variable {content : Content} {version : FormatVersion} {vocabulary : Vocabulary}

/-- Two pairs of words with the same keys are the same pair. -/
theorem pair_eq (represents : content.Represents version vocabulary) {first second one two : Word}
    {low high lower upper : Nat} (placeFirst : placeIn vocabulary.spelled first = some low)
    (placeSecond : placeIn vocabulary.spelled second = some high)
    (placeOne : placeIn vocabulary.spelled one = some lower)
    (placeTwo : placeIn vocabulary.spelled two = some upper)
    (same : wordKey low = wordKey lower ∧ wordKey high = wordKey upper) :
    (first, second) = (one, two) := by
  have source := wordKey_inj (represents.token_lt placeFirst) (represents.token_lt placeOne) same.1
  have target :=
    wordKey_inj (represents.token_lt placeSecond) (represents.token_lt placeTwo) same.2
  subst source target
  rw [placeIn_inj placeFirst placeOne, placeIn_inj placeSecond placeTwo]

section Refiled

variable {first second : Word} {low high spot : Nat} {known : Option BigramRecord}
  {followers : Forest} {bigrams : Std.ExtHashMap (Word × Word) BigramRecord}
  (represents : content.Represents version vocabulary)
  (placeFirst : placeIn vocabulary.spelled first = some low)
  (placeSecond : placeIn vocabulary.spelled second = some high)
  (filed : ∀ key name, followers.at? [key] name =
    if key = wordKey low ∧ name = wordKey high then known.map fun _ => (spot, false)
    else content.followers.at? [key] name)
  (told : ∀ one two, bigrams[(one, two)]? =
    if (first, second) = (one, two) then known else vocabulary.bigrams[(one, two)]?)

include represents placeFirst placeSecond filed told

/-- Where what is filed for two words changes together with what is known about them, every record
that is filed is still what is known about two words. -/
theorem relation_refiled {records : ByteArray}
    (shown : ∀ {record : BigramRecord}, known = some record →
      Buffer.Shows records spot (record.encode version))
    (kept : ∀ {offset : Nat} {bytes : List UInt8}, Buffer.Shows content.records offset bytes →
      Buffer.Shows records offset bytes)
    {source target : Int32} {place : Nat} {nested : Bool}
    (has : followers.at? [source] target = some (place, nested)) :
    nested = false ∧ ∃ first second low high bigram,
      placeIn vocabulary.spelled first = some low ∧
        placeIn vocabulary.spelled second = some high ∧ source = wordKey low ∧
        target = wordKey high ∧ bigrams[(first, second)]? = some bigram ∧
        Buffer.Shows records place (bigram.encode version) := by
  rw [filed] at has
  split at has
  next here =>
    obtain ⟨rfl, rfl⟩ := here
    obtain ⟨record, found, same⟩ := Option.map_eq_some_iff.mp has
    cases same
    refine ⟨rfl, first, second, low, high, record, placeFirst, placeSecond, rfl, rfl, ?_,
      shown found⟩
    rw [told, if_pos rfl, found]
  next elsewhere =>
    obtain ⟨bare, one, two, lower, upper, bigram, placeOne, placeTwo, rfl, rfl, related, shows⟩ :=
      represents.relation has
    refine ⟨bare, one, two, lower, upper, bigram, placeOne, placeTwo, rfl, rfl, ?_, kept shows⟩
    rw [told, if_neg, related]
    intro same
    cases same
    rw [placeFirst] at placeOne
    rw [placeSecond] at placeTwo
    cases placeOne
    cases placeTwo
    exact elsewhere ⟨rfl, rfl⟩

/-- Where what is filed for two words changes together with what is known about them, all that is
known is still filed. -/
theorem related_refiled {one two : Word} {bigram : BigramRecord}
    (has : bigrams[(one, two)]? = some bigram) :
    ∃ low high, placeIn vocabulary.spelled one = some low ∧
      placeIn vocabulary.spelled two = some high ∧
      (followers.at? [wordKey low] (wordKey high)).isSome = true := by
  rw [told] at has
  split at has
  next same =>
    cases same
    refine ⟨low, high, placeFirst, placeSecond, ?_⟩
    rw [filed, if_pos ⟨rfl, rfl⟩, has]
    rfl
  next other =>
    obtain ⟨lower, upper, placeOne, placeTwo, some⟩ := represents.related has
    refine ⟨lower, upper, placeOne, placeTwo, ?_⟩
    rw [filed, if_neg]
    · exact some
    · rintro ⟨source, target⟩
      exact other
        (represents.pair_eq placeFirst placeSecond placeOne placeTwo ⟨source.symm, target.symm⟩)

end Refiled

/-- Nothing is nested below what is filed for two words. -/
theorem bare (represents : content.Represents version vocabulary) (source target : Int32) :
    ((content.followers.at? [source] target).map (·.2)).getD false = false := by
  cases before : content.followers.at? [source] target with
  | none => rfl
  | some found => exact (represents.relation before).1

/-- A record that is appended and filed for two words is what is known about them then. -/
theorem relate (represents : content.Represents version vocabulary) {first second : Word}
    {low high count : Nat} (placeFirst : placeIn vocabulary.spelled first = some low)
    (placeSecond : placeIn vocabulary.spelled second = some high) {record : BigramRecord}
    (storable : record.Storable version) {followers : Forest} (lawful : followers.Lawful)
    (filed : ∀ key name, followers.at? [key] name =
      if key = wordKey low ∧ name = wordKey high then
        some (content.records.size,
          ((content.followers.at? [wordKey low] (wordKey high)).map (·.2)).getD false)
      else content.followers.at? [key] name)
    (counted : count = (vocabulary.relate first second record).bigrams.size)
    (bounded : content.usedBytes + (record.encode version).length +
      followers.usedBytes ≤ maxBufferBytes + content.followers.usedBytes) :
    Content.Represents
      { content with
        followers := followers
        records := Buffer.append content.records (record.encode version)
        bigramCount := count }
      version (vocabulary.relate first second record) := by
  have told : ∀ one two, (vocabulary.relate first second record).bigrams[(one, two)]? =
      if (first, second) = (one, two) then some record else vocabulary.bigrams[(one, two)]? := by
    intro one two
    rw [Vocabulary.relate, Std.ExtHashMap.getElem?_insert]
    simp only [beq_iff_eq]
  rw [represents.bare] at filed
  refine ⟨represents.distinct, represents.storable, ?_, ?_, represents.words, represents.filed,
    lawful, ?_, represents.related_refiled placeFirst placeSecond filed told,
    represents.unigramCount, counted, ?_, ?_⟩
  · intro one two bigram has
    rw [told] at has
    split at has
    next =>
      cases has
      exact storable
    next => exact represents.storableBigram has
  · obtain ⟨terminals, bytes, layout⟩ := represents.layout
    exact ⟨terminals, bytes, layout.append _⟩
  · refine represents.relation_refiled placeFirst placeSecond filed told ?_ fun shows =>
      shows.append _
    intro appended same
    cases same
    exact Buffer.Shows.appended _ _
  · have recorded := represents.recorded
    have positive : 0 < (record.encode version).length := Nat.succ_pos _
    rw [represents.bigramCount] at recorded
    dsimp only
    rw [counted, Vocabulary.relate, Std.ExtHashMap.size_insert, Buffer.size_append]
    split <;> omega
  · have parts := represents.sizes_le
    simp only [Content.usedBytes, Buffer.size_append] at bounded ⊢
    omega

/-- Where nothing is filed for two words any more, nothing is known about them. -/
theorem unrelate (represents : content.Represents version vocabulary) {first second : Word}
    {low high count : Nat} (placeFirst : placeIn vocabulary.spelled first = some low)
    (placeSecond : placeIn vocabulary.spelled second = some high) {followers : Forest}
    (lawful : followers.Lawful)
    (filed : ∀ key name, followers.at? [key] name =
      if key = wordKey low ∧ name = wordKey high then none else content.followers.at? [key] name)
    (counted : count = (vocabulary.bigrams.erase (first, second)).size)
    (size : followers.usedBytes = content.followers.usedBytes) :
    Content.Represents { content with followers := followers, bigramCount := count } version
      { vocabulary with bigrams := vocabulary.bigrams.erase (first, second) } := by
  have told : ∀ one two, (vocabulary.bigrams.erase (first, second))[(one, two)]? =
      if (first, second) = (one, two) then none else vocabulary.bigrams[(one, two)]? := by
    intro one two
    rw [Std.ExtHashMap.getElem?_erase]
    simp only [beq_iff_eq]
  have cleared : ∀ key name, followers.at? [key] name =
      if key = wordKey low ∧ name = wordKey high then
        (none : Option BigramRecord).map fun _ => (0, false)
      else content.followers.at? [key] name := filed
  refine ⟨represents.distinct, represents.storable, ?_, represents.layout, represents.words,
    represents.filed, lawful,
    represents.relation_refiled placeFirst placeSecond cleared told nofun id,
    represents.related_refiled placeFirst placeSecond cleared told,
    represents.unigramCount, counted, ?_, ?_⟩
  · intro one two bigram has
    dsimp only at has
    rw [told] at has
    split at has
    next => cases has
    next => exact represents.storableBigram has
  · have recorded := represents.recorded
    rw [represents.bigramCount] at recorded
    rw [counted, Std.ExtHashMap.size_erase]
    split
    next => exact Nat.le_trans (Nat.sub_le _ _) recorded
    next => exact recorded
  · have bounded := represents.bounded
    simp only [Content.usedBytes, size] at bounded ⊢
    exact bounded

end Content.Represents

/-- Nothing is stored anew and no bigram is filed anew; some bytes are superseded. -/
structure Dictionary.Unfiled (before after : Dictionary) (bytes : Nat) : Prop where
  terminals : after.content.terminals = before.content.terminals
  records : after.content.records = before.content.records
  followers : ∀ {key name : Int32} {found : Nat × Bool},
    after.content.followers.at? [key] name = some found →
      before.content.followers.at? [key] name = some found
  superseded : after.superseded = before.superseded + bytes

/-- Whether a bigram is there is seen at its two keys. -/
theorem Dictionary.hasBigram_eq (dictionary : Dictionary) (source target : Nat) :
    dictionary.hasBigram source target =
      (dictionary.content.followers.at? [wordKey source] (wordKey target)).isSome := by
  rw [hasBigram]
  cases along : dictionary.followerTable source with
  | none =>
      rw [← Represents.descend_source] at along
      rw [Forest.at?, along]
      rfl
  | some table =>
      rw [← Represents.descend_source] at along
      exact Forest.Lawful.contains_at along (wordKey target)

namespace Dictionary.Represents

variable {dictionary : Dictionary} {vocabulary : Vocabulary}

/-! ### Finding what a change is about -/

/-- A word that has to be there is found, or the change is refused. -/
theorem apply_require (represents : dictionary.Represents vocabulary) (word : Word) :
    (require word).apply dictionary =
      (match placeIn vocabulary.spelled word with
        | some token => .ok token
        | none => .error .wordNotFound, dictionary) := by
  simp only [Dictionary.require, Mutation.apply_bind, Mutation.apply_get, represents.find,
    apply_reading_pure]
  cases placeIn vocabulary.spelled word with
  | none => rfl
  | some token => rfl

/-- What both words of a bigram being there comes to. -/
theorem apply_require_both (represents : dictionary.Represents vocabulary) (first second : Word)
    (rest : Nat → Nat → Mutation Dictionary Unit) :
    (require first >>= fun source => require second >>= rest source).apply dictionary =
      match placeIn vocabulary.spelled first, placeIn vocabulary.spelled second with
      | some low, some high => (rest low high).apply dictionary
      | _, _ => (.error .wordNotFound, dictionary) := by
  rw [Mutation.apply_bind, represents.apply_require]
  cases placeIn vocabulary.spelled first with
  | none => rfl
  | some low =>
      dsimp only
      rw [Mutation.apply_bind, represents.apply_require]
      cases placeIn vocabulary.spelled second with
      | none => rfl
      | some high => rfl

theorem requireWords_eq (vocabulary : Vocabulary) (first second : Word) :
    vocabulary.requireWords first second =
      match placeIn vocabulary.spelled first, placeIn vocabulary.spelled second with
      | some _, some _ => .ok ()
      | _, _ => .error .wordNotFound := by
  rw [requireWords]
  cases placeFirst : placeIn vocabulary.spelled first with
  | none => rw [if_neg fun both => placeIn_eq_none.mp placeFirst both.1]
  | some low =>
      have memberFirst : first ∈ vocabulary.spelled := isSome_placeIn.mp (by rw [placeFirst]; rfl)
      cases placeSecond : placeIn vocabulary.spelled second with
      | none => rw [if_neg fun both => placeIn_eq_none.mp placeSecond both.2]
      | some high =>
          rw [if_pos ⟨memberFirst, isSome_placeIn.mp (by rw [placeSecond]; rfl)⟩]

/-- What is checked of a bigram, one after the other. -/
theorem acceptBigram_eq (vocabulary : Vocabulary) (terms : Terms) (used : Nat) (first : Word)
    (bigram : Bigram) :
    vocabulary.acceptBigram terms used first bigram =
      match terms.allow with
      | .error error => .error error
      | .ok () =>
          match checkBigram first bigram with
          | .error error => .error error
          | .ok () =>
              match placeIn vocabulary.spelled first, placeIn vocabulary.spelled bigram.target with
              | some _, some _ =>
                  if (first, bigram.target) ∉ vocabulary.bigrams ∧
                      terms.limits.maxBigrams ≤ vocabulary.bigrams.size then
                    .error (.limitReached .bigrams terms.limits.maxBigrams)
                  else
                    afford terms.limits used (vocabulary.bigramRoom terms.version first bigram.target)
              | _, _ => .error .wordNotFound := by
  rw [acceptBigram, requireWords_eq]
  cases terms.allow with
  | error error => rfl
  | ok =>
      cases checkBigram first bigram with
      | error error => rfl
      | ok =>
          cases placeIn vocabulary.spelled first with
          | none => rfl
          | some low =>
              cases placeIn vocabulary.spelled bigram.target with
              | none => rfl
              | some high => rfl

/-- Whether a bigram is there is seen at the key of its target in the table of its source. -/
theorem isSome_at?_followers (represents : dictionary.Represents vocabulary) {first second : Word}
    {low high : Nat} (placeFirst : placeIn vocabulary.spelled first = some low)
    (placeSecond : placeIn vocabulary.spelled second = some high) :
    (dictionary.content.followers.at? [wordKey low] (wordKey high)).isSome =
      decide ((first, second) ∈ vocabulary.bigrams) := by
  simp only [Std.ExtHashMap.mem_iff_isSome_getElem?]
  cases known : vocabulary.bigrams[(first, second)]? with
  | none =>
      rw [represents.at?_of_unrelated placeFirst placeSecond known]
      rfl
  | some bigram =>
      obtain ⟨record, has, _⟩ := represents.exists_record placeFirst placeSecond known
      rw [has]
      rfl

theorem hasBigram (represents : dictionary.Represents vocabulary) {first second : Word}
    {low high : Nat} (placeFirst : placeIn vocabulary.spelled first = some low)
    (placeSecond : placeIn vocabulary.spelled second = some high) :
    dictionary.hasBigram low high = decide ((first, second) ∈ vocabulary.bigrams) := by
  rw [hasBigram_eq, represents.isSome_at?_followers placeFirst placeSecond]

/-- Two dictionaries that say the same have the same bigrams, whatever is asked for. -/
theorem hasBigram_congr (represents : dictionary.Represents vocabulary) {other : Dictionary}
    (representsOther : other.Represents vocabulary) (source target : Nat) :
    other.hasBigram source target = dictionary.hasBigram source target := by
  have further : ∀ {one two : Dictionary}, one.Represents vocabulary →
      two.Represents vocabulary → one.hasBigram source target = true →
        two.hasBigram source target = true := by
    intro one two known knownOther has
    rw [hasBigram_eq] at has
    obtain ⟨⟨record, nested⟩, stored⟩ := Option.isSome_iff_exists.mp has
    obtain ⟨_, first, second, low, high, bigram, _, _, sameSource, sameTarget, related, _⟩ :=
      known.content.relation stored
    obtain ⟨lowOther, highOther, placeFirst, placeSecond, some⟩ := knownOther.content.related related
    rw [hasBigram_eq, sameSource, sameTarget]
    simp_all
  exact Bool.eq_iff_iff.mpr ⟨further representsOther represents, further represents representsOther⟩

/-! ### Adding a bigram -/

/-- Filing a bigram whose room was reserved is not refused, and what is appended and filed is what is
known then. -/
theorem apply_fileBigram (represents : dictionary.Represents vocabulary) {first : Word}
    {bigram : Bigram} {low high : Nat} (placeFirst : placeIn vocabulary.spelled first = some low)
    (placeTarget : placeIn vocabulary.spelled bigram.target = some high)
    (storable : isProbability bigram.probability = true)
    (room : dictionary.usedBytes + vocabulary.bigramRoom dictionary.version first bigram.target ≤
      maxBufferBytes) :
    ∃ followers,
      (fileBigram low high dictionary.content.records.size).apply dictionary.content.followers =
        (.ok (), followers) ∧
      ∀ {after : Dictionary},
        Rewritten dictionary after
          { dictionary.content with
            followers := followers
            records := Buffer.append dictionary.content.records (bigram.encode dictionary.version)
            bigramCount :=
              (vocabulary.relate first bigram.target
                (bigram.record dictionary.version)).bigrams.size } →
        Changed dictionary after
          (vocabulary.relate first bigram.target (bigram.record dictionary.version))
          (vocabulary.bigramRoom dictionary.version first bigram.target) := by
  have content := represents.content
  have used := usedBytes_eq dictionary
  have length := Bigram.length_encode dictionary.version bigram
  have limit : maxBufferBytes = 2147483647 := rfl
  have slots : maxSlots = 2147483647 := rfl
  have largest : Forest.maxValue = 68719476735 := rfl
  have fits : dictionary.content.records.size ≤ Forest.maxValue := by omega
  obtain ⟨followers, filedBigram, lawful, growth, filed⟩ :=
    fileBigram_spec content.followers low high fits (by omega)
  rw [represents.isSome_at?_followers placeFirst placeTarget] at growth
  simp only [decide_eq_true_eq] at growth
  have grown : followers.slotCount * 16 + BigramRecord.size dictionary.version ≤
      dictionary.content.followers.slotCount * 16 +
        vocabulary.bigramRoom dictionary.version first bigram.target := by
    rw [bigramRoom, keyRoom_eq]
    by_cases member : (first, bigram.target) ∈ vocabulary.bigrams
    · rw [if_pos member] at growth ⊢
      omega
    · rw [if_neg member] at growth ⊢
      omega
  refine ⟨followers, filedBigram, fun rewritten => rewritten.changed represents ?_ ?_⟩
  · rw [← BigramRecord.encode_record]
    refine content.relate placeFirst placeTarget ⟨storable, History.kept_kept _ _⟩ lawful filed rfl ?_
    rw [BigramRecord.encode_record, length]
    simp only [Dictionary.usedBytes, Content.usedBytes, Forest.usedBytes, Slot.byteSize] at room ⊢
    omega
  · simp only [Content.usedBytes, Forest.usedBytes, Slot.byteSize, Buffer.size_append, length]
    omega

/-- What is done with a bigram once its room was reserved is not refused, and it is known then: its
record is superseded if it was there, and there is one bigram more if it was not. -/
theorem apply_fileReserved (represents : dictionary.Represents vocabulary) {first : Word}
    {bigram : Bigram} {low high : Nat} (placeFirst : placeIn vocabulary.spelled first = some low)
    (placeTarget : placeIn vocabulary.spelled bigram.target = some high)
    (storable : isProbability bigram.probability = true)
    (room : dictionary.usedBytes + vocabulary.bigramRoom dictionary.version first bigram.target ≤
      maxBufferBytes) :
    ∃ after,
      (do
        onFollowers (fileBigram low high dictionary.content.records.size)
        onContent fun content =>
          { content with
            records := Buffer.append content.records (bigram.encode dictionary.version) }
        if (first, bigram.target) ∈ vocabulary.bigrams then
          supersede (BigramRecord.size dictionary.version)
        else
          onContent fun content => { content with bigramCount := content.bigramCount + 1 } :
        Mutation Dictionary Unit).apply dictionary = (.ok (), after) ∧
      Changed dictionary after
        (vocabulary.relate first bigram.target (bigram.record dictionary.version))
        (vocabulary.bigramRoom dictionary.version first bigram.target) := by
  obtain ⟨followers, filed, changed⟩ :=
    represents.apply_fileBigram placeFirst placeTarget storable room
  have count := represents.content.bigramCount
  by_cases member : (first, bigram.target) ∈ vocabulary.bigrams
  · simp only [if_pos member, Mutation.apply_bind, onFollowers, Mutation.apply_onPart, filed,
      onContent, supersede, Mutation.apply_modify]
    refine ⟨_, rfl, changed ⟨?_, rfl, rfl, rfl, rfl⟩⟩
    dsimp only
    rw [count, relate, Std.ExtHashMap.size_insert, if_pos member]
  · simp only [if_neg member, Mutation.apply_bind, onFollowers, Mutation.apply_onPart, filed,
      onContent, Mutation.apply_modify]
    refine ⟨_, rfl, changed ⟨?_, rfl, rfl, rfl, rfl⟩⟩
    dsimp only
    rw [count, relate, Std.ExtHashMap.size_insert, if_neg member]

/-- What is done once both words of a bigram are found: it is filed where its record can be afforded,
and, if it is not there, where one more is allowed and its keys can be afforded, too. -/
theorem apply_storeBigram (represents : dictionary.Represents vocabulary) {first : Word}
    {bigram : Bigram} {low high : Nat} (placeFirst : placeIn vocabulary.spelled first = some low)
    (placeTarget : placeIn vocabulary.spelled bigram.target = some high)
    (storable : isProbability bigram.probability = true) :
    Decides
      (if (first, bigram.target) ∉ vocabulary.bigrams ∧
          dictionary.configuration.maxBigrams ≤ vocabulary.bigrams.size then
        .error (.limitReached .bigrams dictionary.configuration.maxBigrams)
      else
        afford dictionary.configuration dictionary.usedBytes
          (vocabulary.bigramRoom dictionary.version first bigram.target))
      (storeBigram low high (bigram.encode dictionary.version)) dictionary
      (vocabulary.relate first bigram.target (bigram.record dictionary.version))
      (vocabulary.bigramRoom dictionary.version first bigram.target) := by
  have filing := represents.apply_fileReserved placeFirst placeTarget storable
  unfold Decides
  rw [storeBigram, Mutation.apply_bind_ok (Mutation.apply_get dictionary)]
  simp only [represents.hasBigram placeFirst placeTarget, Bigram.length_encode, decide_eq_true_eq]
  by_cases member : (first, bigram.target) ∈ vocabulary.bigrams
  · have room : vocabulary.bigramRoom dictionary.version first bigram.target =
        BigramRecord.size dictionary.version := by
      rw [bigramRoom, if_pos member, Nat.add_zero]
    rw [room] at filing ⊢
    rw [if_neg fun both => both.1 member, if_pos member, Mutation.apply_bind_check, reserve_eq,
      keyRoom_eq, Nat.mul_zero, Nat.add_zero]
    cases accepted : afford dictionary.configuration dictionary.usedBytes
      (BigramRecord.size dictionary.version) with
    | error error => rfl
    | ok => exact filing (afford_eq_ok.mp accepted).2
  · have room : vocabulary.bigramRoom dictionary.version first bigram.target =
        BigramRecord.size dictionary.version + keyRoom 2 := by
      rw [bigramRoom, if_neg member]
    rw [room] at filing ⊢
    rw [if_neg member, Mutation.apply_bind, Mutation.apply_require, represents.content.bigramCount]
    by_cases full : dictionary.configuration.maxBigrams ≤ vocabulary.bigrams.size
    · rw [if_pos ⟨member, full⟩, decide_eq_false (Nat.not_lt.mpr full)]
      rfl
    · rw [if_neg fun both => full both.2, decide_eq_true (Nat.lt_of_not_le full), if_pos rfl]
      dsimp only
      rw [Mutation.apply_bind_check, reserve_eq]
      cases accepted : afford dictionary.configuration dictionary.usedBytes
        (BigramRecord.size dictionary.version + keyRoom 2) with
      | error error => rfl
      | ok => exact filing (afford_eq_ok.mp accepted).2

/-- Adding a bigram, or replacing what is known about it, is accepted exactly when the vocabulary
accepts it, and changes nothing otherwise. -/
theorem addBigram (represents : dictionary.Represents vocabulary) (first : Word)
    (bigram : Bigram) :
    Decides (vocabulary.acceptBigram dictionary.terms dictionary.usedBytes first bigram)
      (Dictionary.addBigram first bigram) dictionary
      (vocabulary.relate first bigram.target (bigram.record dictionary.version))
      (vocabulary.bigramRoom dictionary.version first bigram.target) := by
  unfold Decides
  rw [Dictionary.addBigram, Mutation.apply_bind_ok (Mutation.apply_get dictionary),
    Mutation.apply_bind_check, checkUpdatable_eq, acceptBigram_eq]
  cases dictionary.terms.allow with
  | error error => rfl
  | ok =>
      dsimp only
      rw [Mutation.apply_bind_check]
      cases checked : checkBigram first bigram with
      | error error => rfl
      | ok =>
          obtain ⟨_, _, storable⟩ := checkBigram_eq_ok.mp checked
          dsimp only
          rw [represents.apply_require_both]
          cases placeFirst : placeIn vocabulary.spelled first with
          | none => rfl
          | some low =>
              cases placeTarget : placeIn vocabulary.spelled bigram.target with
              | none => rfl
              | some high =>
                  exact represents.apply_storeBigram placeFirst placeTarget storable

/-! ### Removing a bigram -/

/-- What is filed for a bigram has nothing nested below it. -/
theorem nested?_followers (represents : dictionary.Represents vocabulary) {source : Nat}
    {table : Table}
    (along : descend dictionary.content.followers Forest.root [wordKey source] = some table)
    (target : Int32) : dictionary.content.followers.nested? table target = none := by
  have below := Forest.isSome_descend_snoc dictionary.content.followers [wordKey source] target
  rw [Forest.descend_below along] at below
  cases nested : dictionary.content.followers.nested? table target with
  | none => rfl
  | some further =>
      rw [nested] at below
      cases has : dictionary.content.followers.at? [wordKey source] target with
      | none =>
          rw [has] at below
          cases below
      | some content =>
          rw [has, Option.map_some, (represents.content.relation has).1] at below
          cases below

/-- What is filed for two words is taken out of the table of the first one, and then nothing is known
about them. -/
theorem erase_follower (represents : dictionary.Represents vocabulary) {first second : Word}
    {low high : Nat} (placeFirst : placeIn vocabulary.spelled first = some low)
    (placeSecond : placeIn vocabulary.spelled second = some high) {table : Table}
    (along : descend dictionary.content.followers Forest.root [wordKey low] = some table) :
    ∃ followers,
      dictionary.content.followers.erase table (wordKey high) =
        (decide ((first, second) ∈ vocabulary.bigrams), followers) ∧
      (∀ {key name : Int32} {found : Nat × Bool}, followers.at? [key] name = some found →
        dictionary.content.followers.at? [key] name = some found) ∧
      ∀ {after : Dictionary},
        Rewritten dictionary after
          { dictionary.content with
            followers := followers
            bigramCount := (vocabulary.bigrams.erase (first, second)).size } →
        Changed dictionary after
          { vocabulary with bigrams := vocabulary.bigrams.erase (first, second) } 0 := by
  have content := represents.content
  obtain ⟨followers, erased, kept, refiled, _⟩ := content.followers.erase_at along (wordKey high)
    (represents.nested?_followers along _)
  rw [represents.isSome_at?_followers placeFirst placeSecond] at erased
  refine ⟨followers, erased, ?_, ?_⟩
  · intro key name found has
    rw [refiled.filed] at has
    split at has
    next => cases has
    next => exact has
  · have size : followers.usedBytes = dictionary.content.followers.usedBytes := by
      rw [Forest.usedBytes, kept, Forest.usedBytes]
    intro after rewritten
    refine rewritten.changed represents ?_ ?_
    · refine content.unrelate placeFirst placeSecond refiled.lawful ?_ rfl size
      intro key name
      rw [refiled.filed]
      simp only [List.cons.injEq, and_true]
    · simp only [Content.usedBytes, size]
      exact Nat.le_refl _

/-- What is done once both words of a bigram that may be there are found. -/
theorem apply_dropBigram (represents : dictionary.Represents vocabulary) {first second : Word}
    {low high : Nat} (placeFirst : placeIn vocabulary.spelled first = some low)
    (placeSecond : placeIn vocabulary.spelled second = some high) :
    ∃ after, (dropBigram low high).apply dictionary = (.ok (), after) ∧
      Changed dictionary after
        { vocabulary with bigrams := vocabulary.bigrams.erase (first, second) } 0 ∧
      Unfiled dictionary after
        (if (first, second) ∈ vocabulary.bigrams then BigramRecord.size dictionary.version else 0) := by
  have content := represents.content
  rw [dropBigram, Mutation.apply_bind_ok (Mutation.apply_get dictionary)]
  cases along : dictionary.followerTable low with
  | none =>
      rw [← descend_source] at along
      -- No table is nested below the first word's key, so there is nothing to take out.
      have silent : ∀ name, dictionary.content.followers.at? [wordKey low] name = none := by
        intro name
        rw [Forest.at?, along]
      have new : (first, second) ∉ vocabulary.bigrams := by
        have present := represents.isSome_at?_followers placeFirst placeSecond
        rw [silent] at present
        exact of_decide_eq_false present.symm
      rw [if_neg new]
      refine ⟨dictionary, rfl, ⟨⟨?_, represents.undamaged⟩, rfl, rfl, rfl, Nat.le_refl _⟩,
        rfl, rfl, fun has => has, rfl⟩
      refine content.unrelate placeFirst placeSecond content.followers ?_ ?_ rfl
      · intro key name
        split
        next here => rw [here.1, silent]
        next => rfl
      · rw [content.bigramCount, Std.ExtHashMap.size_erase, if_neg new]
  | some table =>
      rw [← descend_source] at along
      obtain ⟨followers, erased, fewer, changed⟩ :=
        represents.erase_follower placeFirst placeSecond along
      simp only [Mutation.apply_bind, onFollowers, Mutation.apply_onPart, Mutation.apply_ofChange,
        erased, decide_eq_true_eq]
      by_cases member : (first, second) ∈ vocabulary.bigrams
      · rw [if_pos member, if_pos member]
        simp only [Mutation.apply_bind, onContent, supersede, Mutation.apply_modify]
        refine ⟨_, rfl, changed ⟨?_, rfl, rfl, rfl, rfl⟩, rfl, rfl, fewer, rfl⟩
        dsimp only
        rw [content.bigramCount, Std.ExtHashMap.size_erase, if_pos member]
      · rw [if_neg member, if_neg member]
        refine ⟨_, rfl, changed ⟨?_, rfl, rfl, rfl, rfl⟩, rfl, rfl, fewer, rfl⟩
        dsimp only
        rw [Std.ExtHashMap.size_erase, if_neg member, content.bigramCount]

/-- Removing a bigram is accepted exactly when the vocabulary accepts it, and changes nothing
otherwise. -/
theorem removeBigram (represents : dictionary.Represents vocabulary) (first second : Word) :
    Decides (vocabulary.acceptRemoval dictionary.terms first second)
      (Dictionary.removeBigram first second) dictionary
      { vocabulary with bigrams := vocabulary.bigrams.erase (first, second) } 0 := by
  have content := represents.content
  unfold Decides
  rw [Dictionary.removeBigram, Mutation.apply_bind_ok (Mutation.apply_get dictionary),
    Mutation.apply_bind_check, checkUpdatable_eq, acceptRemoval, requireWords_eq]
  cases dictionary.terms.allow with
  | error error => rfl
  | ok =>
      dsimp only
      rw [Mutation.apply_bind_check]
      cases checkWord first with
      | error error => rfl
      | ok =>
          dsimp only
          rw [Mutation.apply_bind_check]
          cases checkWord second with
          | error error => rfl
          | ok =>
              dsimp only
              rw [represents.apply_require_both]
              cases placeFirst : placeIn vocabulary.spelled first with
              | none => rfl
              | some low =>
                  cases placeSecond : placeIn vocabulary.spelled second with
                  | none => rfl
                  | some high =>
                      obtain ⟨after, done, changed, _⟩ :=
                        represents.apply_dropBigram placeFirst placeSecond
                      exact ⟨after, done, changed⟩

/-- A bigram that was removed leaves its record behind as superseded bytes. -/
theorem unfiled (represents : dictionary.Represents vocabulary) {first second : Word}
    {after : Dictionary} (done : (Dictionary.removeBigram first second).apply dictionary =
      (.ok (), after)) :
    Unfiled dictionary after
      (if (first, second) ∈ vocabulary.bigrams then BigramRecord.size dictionary.version else 0) := by
  rw [Dictionary.removeBigram, Mutation.apply_bind_ok (Mutation.apply_get dictionary),
    Mutation.apply_bind_check] at done
  split at done
  next =>
    rw [Mutation.apply_bind_check] at done
    split at done
    next =>
      rw [Mutation.apply_bind_check] at done
      split at done
      next =>
        rw [represents.apply_require_both] at done
        split at done
        next low high placeFirst placeSecond =>
          obtain ⟨last, dropped, _, unfiled⟩ := represents.apply_dropBigram placeFirst placeSecond
          rw [dropped] at done
          cases done
          exact unfiled
        next => cases done
      next => cases done
    next => cases done
  next => cases done

end Dictionary.Represents

end Lexicon
