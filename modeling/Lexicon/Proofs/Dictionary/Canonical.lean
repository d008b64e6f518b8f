/-
Module: Lexicon.Proofs.Dictionary.Canonical
Layer: Proofs
Purpose: The image that flushing with compaction writes is fixed by the header and by what can be read
  of the dictionary, whatever happened to it before; a second flush writes the same bytes.
Imports: Lexicon.Proofs.Dictionary.Imprint
Trusted boundary: none
Main exports: Vocabulary.words_eq, Dictionary.Coincide, Dictionary.Represents.spelled_of_walk,
  Dictionary.Represents.eq_of_coincide, Dictionary.Represents.compact_again,
  Dictionary.Genuine.flushCompacted_canonical, Dictionary.exists_flushCompacted_empty
-/
import Lexicon.Proofs.Dictionary.Imprint

namespace Lexicon

open Vocabulary

/-! ### A vocabulary is fixed by what can be read of it -/

namespace Vocabulary

variable {vocabulary other : Vocabulary}

/-- The words with what is known about them are the words, each with what is found for it. -/
theorem words_eq (distinct : vocabulary.spelled.Nodup) :
    vocabulary.words = vocabulary.spelled.filterMap fun word =>
      (vocabulary.unigram? word).map fun unigram => (word, unigram) := by
  have each : ∀ entry ∈ vocabulary.words,
      ((vocabulary.unigram? entry.1).map fun unigram => (entry.1, unigram)) = some entry := by
    intro entry among
    rw [(unigram?_eq_some distinct).mpr among]
    rfl
  rw [spelled, List.filterMap_map]
  exact ((List.filterMap_congr each).trans List.filterMap_some).symm

/-- What is read about a word tells its unigram and its bigrams. -/
theorem of_property_eq {word : Word} (member : word ∈ vocabulary.spelled)
    (same : other.property word = vocabulary.property word) :
    other.unigram? word = vocabulary.unigram? word ∧
      other.bigramsOf word = vocabulary.bigramsOf word := by
  rcases Option.isSome_iff_exists.mp (isSome_unigram?.mpr member) with ⟨unigram, known⟩
  rw [property, property, known, Option.map_some] at same
  rcases Option.map_eq_some_iff.mp same with ⟨found, knownOther, equal⟩
  rw [WordProperty.mk.injEq] at equal
  rcases equal with ⟨_, rfl, bigrams⟩
  exact ⟨knownOther.trans known.symm, bigrams⟩

end Vocabulary

/-- Two vocabularies that contents represent are the same when the same can be read of both. -/
theorem Content.Represents.eq_of_property {content another : Content} {version : FormatVersion}
    {vocabulary other : Vocabulary} (represents : content.Represents version vocabulary)
    (representsOther : another.Represents version other)
    (spelled : other.spelled = vocabulary.spelled)
    (same : ∀ word ∈ vocabulary.spelled, other.property word = vocabulary.property word) :
    other = vocabulary := by
  have parts := fun word member => of_property_eq member (same word member)
  have words : other.words = vocabulary.words := by
    rw [words_eq represents.distinct, words_eq representsOther.distinct, spelled]
    refine List.filterMap_congr fun word member => ?_
    rw [(parts word member).1]
  have pairs : other.pairs = vocabulary.pairs := by
    rw [Vocabulary.pairs, Vocabulary.pairs, spelled]
    refine List.flatMap_congr fun word member => ?_
    rw [(parts word member).2]
  have bigrams : other.bigrams = vocabulary.bigrams := by
    rw [← represents.relations_pairs, ← representsOther.relations_pairs, pairs]
  cases other
  cases vocabulary
  rw [Vocabulary.mk.injEq]
  exact ⟨words, bigrams⟩

namespace Dictionary

/-- Two dictionaries have the same header, and the same can be read of them: the same words in the
same order, each with the same unigram and the same bigrams. -/
structure Coincide (first second : Dictionary) : Prop where
  header : second.header = first.header
  words : (second.walk 0).value.map (·.1) = (first.walk 0).value.map (·.1)
  property : ∀ word ∈ (first.walk 0).value.map (·.1),
    (second.property word).value = (first.property word).value

namespace Represents

variable {first second dictionary after : Dictionary} {vocabulary other : Vocabulary}

/-- A walk that goes on behind some words gives the others. -/
theorem walk_behind (represents : dictionary.Represents vocabulary) {after : List Word} :
    ∀ {before : List Word} {word : Word}, vocabulary.spelled = before ++ word :: after →
      (dictionary.walk (total before)).value.map (·.1) = word :: after := by
  induction after with
  | nil =>
      intro before word split
      rw [represents.walk_step (walkable_total split), next_total split]
      rfl
  | cons follower after ih =>
      intro before word split
      have further : vocabulary.spelled = (before ++ [word]) ++ follower :: after :=
        split.trans (List.append_cons _ _ _)
      have onwards : total (before ++ [word]) ≠ 0 := by
        have positive := recordSize_pos word
        rw [total_append, total_cons]
        omega
      have next := next_total split
      rw [if_neg (List.cons_ne_nil follower after)] at next
      rw [represents.walk_step (walkable_total split), next, if_neg onwards]
      simp only [Reading.value_bind, Reading.value_pure, List.map_cons]
      rw [ih further]

/-- A walk from the start gives the words in order, or the empty word if there are none. -/
theorem walk_words (represents : dictionary.Represents vocabulary) :
    (dictionary.walk 0).value.map (·.1) =
      if vocabulary.spelled = [] then [[]] else vocabulary.spelled := by
  cases split : vocabulary.spelled with
  | nil =>
      have ended : vocabulary.next 0 = ([], 0) := by rw [Vocabulary.next, split, wordAt]
      rw [represents.walk_step (.inl (by rw [split]; exact Nat.le_refl 0)), ended]
      rfl
  | cons word after =>
      have whole : vocabulary.spelled = [] ++ word :: after := split
      rw [if_neg (List.cons_ne_nil word after)]
      exact represents.walk_behind whole

/-- The words can be told from a walk, since none of them is empty. -/
theorem spelled_of_walk (represents : first.Represents vocabulary)
    (representsOther : second.Represents other)
    (same : (second.walk 0).value.map (·.1) = (first.walk 0).value.map (·.1)) :
    other.spelled = vocabulary.spelled := by
  have filled : ∀ {dictionary : Dictionary} {vocabulary : Vocabulary},
      dictionary.Represents vocabulary → vocabulary.spelled ≠ [[]] := by
    intro dictionary vocabulary represents single
    have member : [] ∈ vocabulary.spelled := single ▸ List.mem_cons_self
    exact (represents.content.storable_word member).1 rfl
  rw [represents.walk_words, representsOther.walk_words] at same
  split at same
  next none =>
    split at same
    next noneOther => rw [none, noneOther]
    next => exact absurd same.symm (filled represents)
  next =>
    split at same
    next => exact absurd same (filled representsOther)
    next => exact same

/-- Dictionaries of which the same can be read represent the same vocabulary. -/
theorem eq_of_coincide (represents : first.Represents vocabulary)
    (representsOther : second.Represents other) (coincide : Coincide first second) :
    other = vocabulary := by
  have spelled := represents.spelled_of_walk representsOther coincide.words
  have content := representsOther.content
  rw [Dictionary.version, coincide.header] at content
  refine represents.content.eq_of_property content spelled fun word member => ?_
  have visited : word ∈ (first.walk 0).value.map (·.1) := by
    rw [represents.walk_words, if_neg (List.ne_nil_of_mem member)]
    exact member
  have same := coincide.property word visited
  rwa [represents.property, representsOther.property, Reading.value_pure,
    Reading.value_pure] at same

/-- Dictionaries that represent the same vocabulary, under the same header, coincide. -/
theorem coincide (represents : first.Represents vocabulary)
    (representsOther : second.Represents vocabulary) (header : second.header = first.header) :
    Coincide first second := by
  refine ⟨header, ?_, fun word _ => ?_⟩
  · rw [represents.walk_words, representsOther.walk_words]
  · rw [represents.property, representsOther.property]

/-! ### Compacting again -/

/-- Compacting what was compacted changes nothing. -/
theorem compact_again (represents : dictionary.Represents vocabulary)
    (done : Dictionary.compact.apply dictionary = (.ok (), after)) :
    Dictionary.compact.apply after = (.ok (), after) ∧ after.Represents vocabulary ∧
      after.header = dictionary.header ∧ after.updatable = dictionary.updatable := by
  rcases represents.compact with ⟨answer, compacted, spec⟩
  have applied := spec.applied
  rw [done] at applied
  cases applied
  have filled := represents.compact_eq
  rw [done] at filled
  split at filled
  next fresh made =>
    cases filled
    refine ⟨?_, spec.represents, rfl, rfl⟩
    rw [spec.represents.compact_eq]
    dsimp only
    rw [made]
  next => cases filled

end Represents

/-- In an empty directory, what can be compacted and encoded can be flushed. -/
theorem exists_flushCompacted_empty {dictionary : Dictionary} {name part beside : String}
    (here : Directory.path name = [part])
    (there : Directory.path (Directory.provisional name) = [beside])
    (updatable : dictionary.updatable = true)
    (kept : (compact.apply dictionary).2.updatable = true)
    (compacted : (compact.apply dictionary).1 = .ok ())
    (encoded : (Image.encode (compact.apply dictionary).2.header
      (compact.apply dictionary).2.content).toOption.isSome = true) :
    ∃ written, dictionary.flushCompacted .empty name =
      (.ok (), (compact.apply dictionary).2, written) := by
  cases found : Image.encode (compact.apply dictionary).2.header
      (compact.apply dictionary).2.content with
  | error error =>
      rw [found] at encoded
      cases encoded
  | ok image =>
      rcases Directory.exists_replaceFile_empty here there image.toByteArray with ⟨written, replaced⟩
      refine ⟨written, flushCompacted_eq_ok.mpr ⟨?_, Prod.ext compacted rfl,
        flush_of_replaceFile kept found replaced⟩⟩
      rw [checkUpdatable, if_pos updatable]

/-- A dictionary that can be compacted represents a vocabulary. -/
theorem Genuine.represents_of_compact {dictionary after : Dictionary} (genuine : Genuine dictionary)
    (done : compact.apply dictionary = (.ok (), after)) :
    ∃ vocabulary, dictionary.Represents vocabulary := by
  rcases genuine.sturdy.1 with ⟨vocabulary, content⟩
  refine ⟨vocabulary, content, ?_⟩
  rw [compact, Mutation.apply_ofChange] at done
  split at done
  next => cases done
  next undamaged => simpa using undamaged

/-- Flushing with compaction writes an image that is fixed by the header and by what can be read of
the dictionary: whatever came before, and whatever the limits are, all dictionaries that coincide
write the same bytes.  The dictionary that is left coincides with the one before.  Flushing it with
compaction again leaves it as it is, with the bytes that it uses, and writes the same image, wherever
that can be written; where it was written before, it can. -/
theorem Genuine.flushCompacted_canonical {first after : Dictionary} {directory written : Directory}
    {name : String} (genuine : Genuine first)
    (done : first.flushCompacted directory name = (.ok (), after, written)) :
    ∃ image : List UInt8, written.mapFile name = .ok image.toByteArray ∧
      (∀ {second last : Dictionary} {elsewhere left : Directory} {other : String},
        Genuine second → Coincide first second →
          second.flushCompacted elsewhere other = (.ok (), last, left) →
            left.mapFile other = .ok image.toByteArray) ∧
      Coincide first after ∧
      (∀ (elsewhere : Directory) (other : String), after.flushCompacted elsewhere other =
        ((elsewhere.replaceFile other image.toByteArray).1.mapError .file, after,
          (elsewhere.replaceFile other image.toByteArray).2)) ∧
      ∃ again, after.flushCompacted written name = (.ok (), after, again) ∧
        again.mapFile name = .ok image.toByteArray := by
  rcases flushCompacted_eq_ok.mp done with ⟨accepted, compacted, flushed⟩
  rcases genuine.represents_of_compact compacted with ⟨vocabulary, represents⟩
  rcases exists_image_of_flush flushed with ⟨image, encoded, mapped⟩
  have imprint := represents.imprint_of_compact compacted encoded
  rcases represents.compact_again compacted with ⟨fixed, representsAfter, header, updatable⟩
  have acceptedAfter : after.checkUpdatable = .ok () := by
    rw [checkUpdatable, updatable]
    exact accepted
  -- what was compacted is stored as it is
  have stored : ∀ (elsewhere : Directory) (other : String), after.flushCompacted elsewhere other =
      ((elsewhere.replaceFile other image.toByteArray).1.mapError .file, after,
        (elsewhere.replaceFile other image.toByteArray).2) := by
    intro elsewhere other
    rw [flushCompacted, acceptedAfter, fixed]
    dsimp only
    rw [flush, acceptedAfter, encoded]
  refine ⟨image, mapped, ?_, represents.coincide representsAfter header, stored, ?_⟩
  · intro second last elsewhere left other genuineOther coincide doneOther
    rcases flushCompacted_eq_ok.mp doneOther with ⟨_, compactedOther, _⟩
    rcases genuineOther.represents_of_compact compactedOther with ⟨known, representsOther⟩
    have same : known = vocabulary := represents.eq_of_coincide representsOther coincide
    subst same
    rcases representsOther.imprint doneOther with ⟨bytes, imprintOther, mappedOther⟩
    rw [coincide.header] at imprintOther
    rw [mappedOther, imprint.unique imprintOther]
  · have whole := flushCompacted_eq_ok.mpr ⟨acceptedAfter, fixed, flushed⟩
    rw [stored directory name, Prod.mk.injEq, Prod.mk.injEq] at whole
    have replaced : directory.replaceFile name image.toByteArray = (.ok (), written) := by
      refine Prod.ext ?_ whole.2.2
      cases answer : (directory.replaceFile name image.toByteArray).1 with
      | error fault =>
          rw [answer] at whole
          cases whole.1
      | ok accepted => rfl
    rcases Directory.exists_replaceFile_again replaced image.toByteArray with ⟨again, onceMore⟩
    refine ⟨again, ?_, Directory.mapFile_of_replaceFile onceMore⟩
    rw [stored, onceMore]
    rfl

/-- Two words and a bigram. -/
def straight : List Operation :=
  [.request (.addUnigram [97] { probability := 7 }),
    .request (.addUnigram [98] { probability := 5 }),
    .request (.addBigram [97] { target := [98], probability := 3 })]

/-- The same after detours: a word is overwritten, a bigram is removed and added again, and a word
that is empty is refused. -/
def winding : List Operation :=
  [.request (.addUnigram [97] { probability := 1 }),
    .request (.addUnigram [98] { probability := 5 }),
    .request (.addBigram [97] { target := [98], probability := 9 }),
    .request (.removeBigram [97] [98]),
    .request (.addUnigram [] { probability := 2 }),
    .request (.addUnigram [97] { probability := 7 }),
    .request (.addBigram [97] { target := [98], probability := 3 })]

/-- What comes of some operations on an empty dictionary. -/
def reached (limits : Configuration) (operations : List Operation) : Dictionary :=
  ((Session.start (empty ⟨.plain, "en", default⟩ limits)).drive operations).dictionary

theorem genuine_reached (limits : Configuration) (operations : List Operation) :
    Genuine (reached limits operations) :=
  (Genuine.created (show create 4 "en" default limits = .ok _ from rfl)).drive operations

theorem header_reached (limits : Configuration) (operations : List Operation) :
    (reached limits operations).header = ⟨.plain, "en", default⟩ :=
  (lasting_sturdy.drive ⟨rfl, lasting_sturdy.empty _⟩ operations).headed

/-- Both ways, and within different limits, the same bytes are written, and once more when the flush
is repeated. -/
theorem Genuine.flushCompacted_canonical_winding :
    ∃ after last written left again,
      Genuine (reached .standard straight) ∧ Genuine (reached (.ofCapacity 9000) winding) ∧
      (reached .standard straight).superseded = 0 ∧
      (reached (.ofCapacity 9000) winding).superseded ≠ 0 ∧
      Coincide (reached .standard straight) (reached (.ofCapacity 9000) winding) ∧
      (reached .standard straight).flushCompacted .empty "m" = (.ok (), after, written) ∧
      (reached (.ofCapacity 9000) winding).flushCompacted .empty "m" = (.ok (), last, left) ∧
      written.mapFile "m" = left.mapFile "m" ∧
      after.flushCompacted written "m" = (.ok (), after, again) ∧
      again.mapFile "m" = written.mapFile "m" := by
  have first := genuine_reached .standard straight
  have second := genuine_reached (.ofCapacity 9000) winding
  have coincide : Coincide (reached .standard straight) (reached (.ofCapacity 9000) winding) := by
    refine ⟨?_, by decide +kernel, by decide +kernel⟩
    rw [header_reached, header_reached]
  have flushed : ∀ dictionary : Dictionary, dictionary.updatable = true →
      (compact.apply dictionary).2.updatable = true → (compact.apply dictionary).1 = .ok () →
      (Image.encode (compact.apply dictionary).2.header
        (compact.apply dictionary).2.content).toOption.isSome = true →
      ∃ written, dictionary.flushCompacted .empty "m" =
        (.ok (), (compact.apply dictionary).2, written) := fun _ =>
    exists_flushCompacted_empty (show Directory.path "m" = ["m"] by decide +kernel)
      (show Directory.path (Directory.provisional "m") = ["m.tmp"] by decide +kernel)
  obtain ⟨written, done⟩ := flushed (reached .standard straight) (by decide +kernel)
    (by decide +kernel) (by decide +kernel) (by decide +kernel)
  obtain ⟨left, doneOther⟩ := flushed (reached (.ofCapacity 9000) winding) (by decide +kernel)
    (by decide +kernel) (by decide +kernel) (by decide +kernel)
  obtain ⟨image, mapped, canonical, _, _, again, repeated, mappedAgain⟩ :=
    first.flushCompacted_canonical done
  refine ⟨_, _, written, left, again, first, second, by decide +kernel, by decide +kernel, coincide,
    done, doneOther, ?_, repeated, ?_⟩
  · rw [mapped, canonical second coincide doneOther]
  · rw [mapped, mappedAgain]

end Dictionary

end Lexicon
