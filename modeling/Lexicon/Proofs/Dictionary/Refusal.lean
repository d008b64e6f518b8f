/-
Module: Lexicon.Proofs.Dictionary.Refusal
Layer: Proofs
Purpose: A change that is refused leaves a dictionary as it was, but for a note of damage, also where
  the dictionary was opened from an image that says anything.
Imports: Lexicon.Proofs.Dictionary.Genuine, Lexicon.Proofs.Directory,
  Lexicon.Proofs.Forest.Acceptance, Lexicon.Proofs.Forest.Refusal
Trusted boundary: none
Main exports: Dictionary.fileWord_of_room, Dictionary.fileBigram_of_room, Mutation.Accepted,
  Dictionary.Spares, Image.sustains_of_decode, Dictionary.Attained, Dictionary.Attained.refused_spared
-/
import Lexicon.Proofs.Dictionary.Genuine
import Lexicon.Proofs.Directory
import Lexicon.Proofs.Forest.Acceptance
import Lexicon.Proofs.Forest.Refusal

namespace Lexicon

open Forest (Coherent)

namespace Dictionary

/-! ### Filing -/

section Filing

variable {loose : Prop} {forest : Forest} {tables : Finset Table} {table : Table}

/-- Where there is room, the table below a key that has none is a new one, which is bare. -/
theorem nest_of_room {α : Type} (coherent : Coherent loose forest tables) (member : table ∈ tables)
    {key : Int32} {value : Nat} (has : forest.under? table key = some (value, none))
    (room : forest.slotCount + 1 ≤ maxSlots) (rest : Table → Mutation Forest α) :
    ∃ fresh wide others, Coherent loose wide others ∧ fresh ∈ others ∧ wide.Bare fresh ∧
      wide.slotCount ≤ forest.slotCount + 1 ∧
      (nest table key >>= rest).apply forest = (rest fresh).apply wide := by
  obtain ⟨fresh, wide, created, founded⟩ := Forest.founded_of_room coherent member has room
  refine ⟨fresh, wide, _, founded.sound, Finset.mem_insert_self _ _, founded.bare, founded.growth,
    ?_⟩
  rw [Mutation.apply_bind, nest, Mutation.apply_ofChange, created]

/-- Where there is room, entering the table below a key is refused for its depth before anything has
changed, or leads to a table that was there, or to a new one.  From a bare table it leads to a new
one. -/
theorem entering_of_room {α : Type} (coherent : Coherent loose forest tables)
    (member : table ∈ tables) (key : Int32) (room : forest.slotCount + 33 ≤ maxSlots)
    (rest : Table → Mutation Forest α) :
    ¬ forest.Bare table ∧
        ((entering table key rest).apply forest = (.error (.format (.keyTooDeep key)), forest) ∨
          ∃ known ∈ tables, (entering table key rest).apply forest = (rest known).apply forest) ∨
      ∃ fresh wide others, Coherent loose wide others ∧ fresh ∈ others ∧ wide.Bare fresh ∧
        wide.slotCount ≤ forest.slotCount + 33 ∧
        (entering table key rest).apply forest = (rest fresh).apply wide := by
  have has := forest.contains_eq table key
  rw [entering_eq]
  cases under : forest.under? table key with
  | none =>
      rw [under, Option.isSome_none] at has
      rw [has, if_neg (by decide), Mutation.apply_bind, Mutation.apply_ofChange]
      rcases Forest.put_of_room coherent member key (Nat.zero_le _) (by omega) with
        ⟨after, stored, growth, amended⟩ | ⟨refused, filled⟩
      · right
        have here := amended.entry table member key
        rw [if_pos ⟨rfl, rfl⟩, under] at here
        obtain ⟨fresh, wide, others, sound, among, bare, further, done⟩ :=
          nest_of_room amended.sound member here (by omega) rest
        exact ⟨fresh, wide, others, sound, among, bare, by omega, by rw [stored]; exact done⟩
      · rw [refused]
        exact .inl ⟨filled, .inl rfl⟩
  | some content =>
      obtain ⟨value, nested⟩ := content
      rw [under, Option.isSome_some] at has
      rw [has, if_pos rfl]
      have filled : ¬ forest.Bare table := by
        intro bare
        rw [bare.contains] at has
        cases has
      cases nested with
      | some known =>
          have spec := Forest.createNested_spec coherent member key
          rw [under] at spec
          refine .inl ⟨filled, .inr ⟨known, (coherent.linked member under).1, ?_⟩⟩
          rw [Mutation.apply_bind, nest, Mutation.apply_ofChange, spec]
      | none =>
          obtain ⟨fresh, wide, others, sound, among, bare, further, done⟩ :=
            nest_of_room coherent member under (by omega) rest
          exact .inr ⟨fresh, wide, others, sound, among, bare, by omega, done⟩

/-- Where there is room, a word is filed, or refused for the depth of a key before anything has
changed; below a bare table it is filed.  The induction is on the word: once something has changed,
the table that is entered is bare. -/
theorem fileWord_of_room {terminal : Nat} (fits : terminal + 1 ≤ Forest.maxValue) (word : Word) :
    ∀ {forest : Forest} {tables : Finset Table} {table : Table}, word ≠ [] →
      Coherent loose forest tables → table ∈ tables →
      forest.slotCount + 33 * word.length ≤ maxSlots →
      (∃ after, (fileWord terminal table word).apply forest = (.ok (), after)) ∨
        ∃ key, (fileWord terminal table word).apply forest =
            (.error (.format (.keyTooDeep key)), forest) ∧ ¬ forest.Bare table := by
  induction word with
  | nil =>
      intro forest tables table letters
      exact absurd rfl letters
  | cons codePoint rest ih =>
      intro forest tables table _ coherent member room
      simp only [List.length_cons] at room
      cases rest with
      | nil =>
          refine (Forest.put_of_room coherent member codePoint fits (by omega)).imp ?_
            fun refused => ⟨codePoint, refused⟩
          rintro ⟨after, stored, _⟩
          exact ⟨after, stored⟩
      | cons next rest =>
          rw [fileWord_cons]
          rcases entering_of_room coherent member codePoint (by omega) fun nested =>
              fileWord terminal nested (next :: rest) with
            ⟨filled, refused | ⟨known, among, same⟩⟩ |
            ⟨fresh, wide, others, sound, among, bare, growth, same⟩
          · exact .inr ⟨codePoint, refused, filled⟩
          · rw [same]
            refine (ih (List.cons_ne_nil _ _) coherent among (by omega)).imp_right ?_
            rintro ⟨key, refused, _⟩
            exact ⟨key, refused, filled⟩
          · rw [same]
            -- Something has changed by now, but the table that is entered is new,
            -- and so no key leads too deep in it.
            refine .inl ((ih (List.cons_ne_nil _ _) sound among (by omega)).resolve_right ?_)
            rintro ⟨_, _, filled⟩
            exact filled bare

/-- Where there is room, a bigram is filed, or refused for the depth of a key before anything has
changed. -/
theorem fileBigram_of_room (coherent : Coherent loose forest tables) (source target : Nat)
    {record : Nat} (fits : record ≤ Forest.maxValue) (room : forest.slotCount + 65 ≤ maxSlots) :
    (∃ after, (fileBigram source target record).apply forest = (.ok (), after)) ∨
      ∃ key, (fileBigram source target record).apply forest =
        (.error (.format (.keyTooDeep key)), forest) := by
  rw [fileBigram_eq]
  rcases entering_of_room coherent coherent.rooted (wordKey source) (by omega) fun table =>
      Mutation.ofChange fun followers => followers.put table (wordKey target) record with
    ⟨filled, refused | ⟨known, among, same⟩⟩ |
    ⟨fresh, wide, others, sound, among, bare, growth, same⟩
  · exact .inr ⟨_, refused⟩
  · rw [same]
    rcases Forest.put_of_room coherent among (wordKey target) fits (by omega) with
      ⟨after, stored, _⟩ | ⟨refused, _⟩
    · exact .inl ⟨after, stored⟩
    · exact .inr ⟨_, refused⟩
  · rw [same]
    have stored := bare.put (wordKey target) fits (by omega)
    exact .inl ⟨_, Prod.ext stored rfl⟩

end Filing

end Dictionary

/-! ### Changes that are never refused -/

namespace Mutation

variable {σ α β : Type}

/-- Whatever the state is, the change is accepted. -/
def Accepted (change : Mutation σ α) : Prop :=
  ∀ state, ∃ value after, change.apply state = (.ok value, after)

namespace Accepted

theorem pure (value : α) : Accepted (Pure.pure value : Mutation σ α) := fun _ => ⟨_, _, rfl⟩

theorem modify (change : σ → σ) : Accepted (modify change : Mutation σ Unit) :=
  fun _ => ⟨_, _, rfl⟩

theorem bind {first : Mutation σ α} {next : α → Mutation σ β} (accepted : Accepted first)
    (rest : ∀ value, Accepted (next value)) : Accepted (first >>= next) := by
  intro state
  obtain ⟨value, middle, done⟩ := accepted state
  rw [apply_bind, done]
  exact rest value middle

theorem bind_get {next : σ → Mutation σ β} (rest : ∀ state, Accepted (next state)) :
    Accepted (get >>= next) := fun state => rest state state

theorem ite {condition : Prop} [Decidable condition] {first second : Mutation σ α}
    (here : Accepted first) (there : Accepted second) :
    Accepted (if condition then first else second) := by
  split
  next => exact here
  next => exact there

end Accepted

end Mutation

namespace Dictionary

/-! ### Changes that leave a dictionary alone when they are refused -/

/-- A dictionary as it was, but that damage may have been noted in it. -/
def Spared (before after : Dictionary) : Prop := after = before ∨ after = before.marked

namespace Spared

variable {before after : Dictionary}

theorem content (spared : Spared before after) : after.content = before.content := by
  rcases spared with rfl | rfl
  · rfl
  · rfl

theorem note {α : Type} (spared : Spared before after) (reading : Reading α) :
    Spared before (after.note reading).2 := by
  have noted : ∀ dictionary : Dictionary, Spared dictionary (dictionary.note reading).2 := by
    rintro ⟨header, configuration, updatable, content, superseded, damaged⟩
    cases damage : reading.damaged with
    | false => exact .inl (by simp [Dictionary.note, damage])
    | true => exact .inr (by simp [Dictionary.note, marked, damage])
  rcases spared with rfl | rfl
  · exact noted _
  · exact .inr ((noted before.marked).elim id id)

end Spared

/-- A change that is refused on a dictionary that was left alone has left it alone. -/
def Spares {α : Type} (before : Dictionary) (change : Mutation Dictionary α) : Prop :=
  ∀ state error after, Spared before state → change.apply state = (.error error, after) →
    Spared before after

namespace Spares

variable {α β : Type} {before : Dictionary}

theorem of_preserves {change : Mutation Dictionary α}
    (preserves : Preserves (Spared before) change) : Spares before change := by
  intro state error after spared refused
  have kept := preserves state spared
  change Spared before (change.apply state).2 at kept
  rwa [refused] at kept

theorem of_accepted {change : Mutation Dictionary α} (accepted : change.Accepted) :
    Spares before change := by
  intro state error after _ refused
  obtain ⟨value, next, done⟩ := accepted state
  rw [done] at refused
  cases refused

/-- As long as nothing is changed, what follows may be refused too. -/
theorem bind {first : Mutation Dictionary α} {next : α → Mutation Dictionary β}
    (preserves : Preserves (Spared before) first) (rest : ∀ value, Spares before (next value)) :
    Spares before (first >>= next) := by
  intro state error after spared refused
  have kept := preserves state spared
  change Spared before (first.apply state).2 at kept
  rw [Mutation.apply_bind] at refused
  generalize first.apply state = outcome at kept refused
  obtain ⟨answer, middle⟩ := outcome
  cases answer with
  | error other =>
      cases refused
      exact kept
  | ok value => exact rest value middle error after kept refused

theorem bind_get {next : Dictionary → Mutation Dictionary β}
    (rest : ∀ state, Spared before state → Spares before (next state)) :
    Spares before (get >>= next) :=
  fun state error after spared refused => rest state spared state error after spared refused

/-- What follows a check is done where the check is passed. -/
theorem bind_check {check : Except Error α} {next : α → Mutation Dictionary β}
    (rest : ∀ value, check = .ok value → Spares before (next value)) :
    Spares before ((liftM check : Mutation Dictionary α) >>= next) := by
  intro state error after spared refused
  rw [Mutation.apply_bind_check] at refused
  cases checked : check with
  | error other =>
      rw [checked] at refused
      cases refused
      exact spared
  | ok value =>
      rw [checked] at refused
      exact rest value checked state error after spared refused

/-- Once something may have changed, nothing that follows may be refused. -/
theorem bind_accepted {first : Mutation Dictionary α} {next : α → Mutation Dictionary β}
    (spares : Spares before first) (rest : ∀ value, (next value).Accepted) :
    Spares before (first >>= next) := by
  intro state error after spared refused
  rw [Mutation.apply_bind] at refused
  have here := spares state
  generalize first.apply state = outcome at here refused
  obtain ⟨answer, middle⟩ := outcome
  cases answer with
  | error other =>
      cases refused
      exact here _ _ spared rfl
  | ok value =>
      obtain ⟨last, final, done⟩ := rest value middle
      cases done.symm.trans refused

/-- A part is changed, or the change of the part is refused and leaves the part as it is. -/
theorem onPart {τ : Type} {part : Dictionary → τ} {replace : Dictionary → τ → Dictionary}
    {change : Mutation τ Unit} (same : ∀ state, replace state (part state) = state)
    (whole : ∀ state, Spared before state →
      (∃ after, change.apply (part state) = (.ok (), after)) ∨
        ∃ error, change.apply (part state) = (.error error, part state)) :
    Spares before (Mutation.onPart part replace change) := by
  intro state error after spared refused
  rw [Mutation.apply_onPart] at refused
  rcases whole state spared with ⟨next, done⟩ | ⟨other, done⟩
  · rw [done] at refused
    cases refused
  · rw [done, same] at refused
    cases refused
    exact spared

end Spares

section Requests

variable {loose : Prop} {before : Dictionary}

theorem spared_reading {α : Type} (reading : Reading α) :
    Preserves (Spared before) (liftM reading : Mutation Dictionary α) :=
  fun _ spared => spared.note reading

/-- Where bytes and keys can be reserved, there are few slots and short buffers. -/
theorem room_of_reserve {dictionary : Dictionary} {bytes keys : Nat}
    (reserved : dictionary.reserve bytes keys = .ok ()) :
    dictionary.content.words.slotCount + 48 * keys ≤ 134217727 ∧
      dictionary.content.followers.slotCount ≤ 134217727 ∧
      dictionary.content.terminals.size ≤ maxBufferBytes ∧
      dictionary.content.records.size ≤ maxBufferBytes := by
  rw [reserve_eq, Vocabulary.afford_eq_ok, Vocabulary.keyRoom_eq, usedBytes_eq] at reserved
  have limit : maxBufferBytes = 2147483647 := rfl
  omega

section Reserved

variable {dictionary : Dictionary} {bytes keys : Nat}

/-- Where bytes and keys were reserved, a word with that many letters is filed, or refused for the
depth of a key. -/
theorem fileWord_of_reserve (sustains : Sustains (Coherent loose) dictionary.content) {word : Word}
    (letters : word ≠ []) (reserved : dictionary.reserve bytes word.length = .ok ()) :
    (∃ after, (fileWord dictionary.content.terminals.size Forest.root word).apply
        dictionary.content.words = (.ok (), after)) ∨
      ∃ key, (fileWord dictionary.content.terminals.size Forest.root word).apply
        dictionary.content.words = (.error (.format (.keyTooDeep key)), dictionary.content.words) := by
  obtain ⟨words, _, terminals, _⟩ := room_of_reserve reserved
  have limit : maxBufferBytes = 2147483647 := rfl
  have slots : maxSlots = 2147483647 := rfl
  have largest : Forest.maxValue = 68719476735 := rfl
  obtain ⟨tables, coherent⟩ := sustains.words
  refine (fileWord_of_room (by omega) word letters coherent coherent.rooted (by omega)).imp_right ?_
  rintro ⟨key, refused, _⟩
  exact ⟨key, refused⟩

/-- Where bytes were reserved, a bigram is filed, or refused for the depth of a key. -/
theorem fileBigram_of_reserve (sustains : Sustains (Coherent loose) dictionary.content)
    (source target : Nat) (reserved : dictionary.reserve bytes keys = .ok ()) :
    (∃ after, (fileBigram source target dictionary.content.records.size).apply
        dictionary.content.followers = (.ok (), after)) ∨
      ∃ key, (fileBigram source target dictionary.content.records.size).apply
        dictionary.content.followers =
          (.error (.format (.keyTooDeep key)), dictionary.content.followers) := by
  obtain ⟨_, followers, _, records⟩ := room_of_reserve reserved
  have limit : maxBufferBytes = 2147483647 := rfl
  have slots : maxSlots = 2147483647 := rfl
  have largest : Forest.maxValue = 68719476735 := rfl
  obtain ⟨tables, coherent⟩ := sustains.followers
  exact fileBigram_of_room coherent source target (by omega) (by omega)

end Reserved

theorem spares_replaceUnigram (offset : Nat) (record : List UInt8) :
    Spares before (replaceUnigram offset record) := by
  refine .bind_get fun dictionary _ => .bind (spared_reading _) fun terminal => ?_
  cases terminal with
  | none => exact .of_preserves (.throw _)
  | some terminal =>
      refine .bind (.check _) fun _ => .bind (spared_reading _) fun old => .of_accepted ?_
      exact .bind (.modify _) fun _ => .modify _

theorem spares_insertUnigram (sustains : Sustains (Coherent loose) before.content) {word : Word}
    (letters : word ≠ []) (record : List UInt8) : Spares before (insertUnigram word record) := by
  refine .bind_get fun dictionary spared => .bind (.require _ _) fun _ => ?_
  refine .bind_check fun _ reserved => .bind_accepted (.onPart (fun _ => rfl) ?_) fun _ => .modify _
  intro state kept
  rw [kept.content, ← spared.content]
  exact (fileWord_of_reserve (spared.content ▸ sustains) letters reserved).imp_right fun
    ⟨_, refused⟩ => ⟨_, refused⟩

theorem spares_storeBigram (sustains : Sustains (Coherent loose) before.content)
    (source target : Nat) (record : List UInt8) :
    Spares before (storeBigram source target record) := by
  have file : ∀ {dictionary : Dictionary} {bytes keys : Nat}, Spared before dictionary →
      dictionary.reserve bytes keys = .ok () →
        Spares before (onFollowers (fileBigram source target dictionary.content.records.size)) := by
    intro dictionary bytes keys spared reserved
    refine .onPart (fun _ => rfl) fun state kept => ?_
    rw [kept.content, ← spared.content]
    exact (fileBigram_of_reserve (spared.content ▸ sustains) source target reserved).imp_right fun
      ⟨_, refused⟩ => ⟨_, refused⟩
  refine .bind_get fun dictionary spared => ?_
  dsimp only
  split
  next =>
    exact .bind_check fun _ reserved => .bind_accepted (file spared reserved) fun _ =>
      .bind (.modify _) fun _ => .modify _
  next =>
    refine .bind (.require _ _) fun _ => .bind_check fun _ reserved => ?_
    exact .bind_accepted (file spared reserved) fun _ => .bind (.modify _) fun _ => .modify _

/-- Taking a bigram away is never refused. -/
theorem accepted_dropBigram (source target : Nat) : (dropBigram source target).Accepted := by
  refine .bind_get fun dictionary => ?_
  cases dictionary.followerTable source with
  | none => exact .pure ()
  | some table =>
      refine .bind (fun _ => ⟨_, _, rfl⟩) fun removed => ?_
      exact .ite (.bind (.modify _) fun _ => .modify _) (.pure ())

theorem spares_addUnigram (sustains : Sustains (Coherent loose) before.content) (word : Word)
    (unigram : Unigram) : Spares before (addUnigram word unigram) := by
  refine .bind .get fun dictionary => .bind (.check _) fun _ => .bind_check fun _ checked => ?_
  refine .bind (spared_reading _) fun found => ?_
  cases found with
  | none =>
      obtain ⟨letters, _⟩ := (checkUnigram_eq_ok.mp checked).1
      exact spares_insertUnigram sustains letters _
  | some offset => exact spares_replaceUnigram offset _

theorem spares_addBigram (sustains : Sustains (Coherent loose) before.content) (first : Word)
    (bigram : Bigram) : Spares before (addBigram first bigram) := by
  refine .bind .get fun dictionary => .bind (.check _) fun _ => .bind (.check _) fun _ => ?_
  exact .bind (preserves_require spared_reading _) fun source =>
    .bind (preserves_require spared_reading _) fun target =>
      spares_storeBigram sustains source target _

theorem spares_removeBigram (first second : Word) : Spares before (removeBigram first second) := by
  refine .bind .get fun dictionary => .bind (.check _) fun _ => .bind (.check _) fun _ =>
    .bind (.check _) fun _ => ?_
  exact .bind (preserves_require spared_reading _) fun source =>
    .bind (preserves_require spared_reading _) fun target =>
      .of_accepted (accepted_dropBigram source target)

end Requests

end Dictionary

/-! ### Images that are accepted -/

namespace Image

open CheckedReader (Yields)
open Dictionary (Sustains)

/-- Whatever a content says, the tables in its forests are coherent if it is accepted. -/
theorem yields_readContent : Yields readContent (Sustains (Coherent True)) := by
  refine (Yields.any _).bind fun unigramCount _ => (Yields.any _).bind fun bigramCount _ => ?_
  refine Forest.yields_read.bind fun words coherent => ?_
  refine Forest.yields_read.bind fun followers coherentFollowers => ?_
  exact (Yields.any _).bind fun terminals _ => (Yields.any _).bind fun records _ =>
    .pure ⟨coherent, coherentFollowers⟩

theorem yields_readBody : Yields readBody fun body => Sustains (Coherent True) body.2 := by
  refine (Yields.any _).bind fun header _ => yields_readContent.bind fun content sustains => ?_
  refine (Yields.any _).bind fun left _ => ?_
  split
  next => exact .pure sustains
  next => exact .refuse _

theorem sustains_of_decode {image : ByteArray} {header : Header} {content : Content}
    (accepted : decode image = .ok (header, content)) : Sustains (Coherent True) content := by
  rw [decode] at accepted
  dsimp only at accepted
  split at accepted
  next => cases accepted
  next =>
    split at accepted
    next => cases accepted
    next =>
      split at accepted
      next body last read =>
        cases accepted
        exact yields_readBody _ _ _ read
      next => cases accepted
      next => cases accepted

end Image

/-! ### All that can be attained -/

namespace Dictionary

/-- The dictionaries that were created, or opened from a file that is accepted, whoever wrote it, and
then used in any way: with any tokens, and with damage noted or not. -/
inductive Attained : Dictionary → Prop where
  | created {number : Nat} {locale : String} {attributes : Attributes} {limits : Configuration}
      {dictionary : Dictionary} (created : create number locale attributes limits = .ok dictionary) :
      Attained dictionary
  | opened {directory : Directory} {name : String} {offset size : Nat} {updatable : Bool}
      {limits : Configuration} {dictionary : Dictionary}
      (opened : openFile directory name offset size updatable limits = .ok dictionary) :
      Attained dictionary
  | performed {dictionary : Dictionary} (attained : Attained dictionary) (tokens : List Nat)
      (operation : Operation) :
      Attained ((Session.mk dictionary tokens).perform operation).dictionary

/-- Whatever came about, the tables in both forests are coherent. -/
theorem Attained.sustains {dictionary : Dictionary} (attained : Attained dictionary) :
    Sustains (Coherent True) dictionary.content := by
  have lasting := lasting_sustains (Forest.lasting_coherent True)
  induction attained with
  | created created =>
      obtain ⟨version, _, rfl⟩ := create_eq_ok_iff.mp created
      exact lasting.empty default
  | opened opened =>
      obtain ⟨_, _, _, _, _, _, accepted, rfl⟩ := exists_of_openFile opened
      exact Image.sustains_of_decode accepted
  | performed _ tokens operation ih =>
      have start : Sustained (Coherent True) _ (Session.mk _ tokens).dictionary := ⟨rfl, ih⟩
      exact (lasting.perform start operation).content

/-- A dictionary that came about in any way is as it was after a request to add a word, to add a
bigram or to remove one is refused, whatever the reason; only damage that was met is noted. -/
theorem Attained.refused_spared {dictionary : Dictionary} (attained : Attained dictionary)
    (error : Error) (after : Dictionary) :
    (∀ word unigram, (addUnigram word unigram).apply dictionary = (.error error, after) →
        after = dictionary ∨ after = { dictionary with damaged := true }) ∧
      (∀ first bigram, (addBigram first bigram).apply dictionary = (.error error, after) →
        after = dictionary ∨ after = { dictionary with damaged := true }) ∧
      ∀ first second, (removeBigram first second).apply dictionary = (.error error, after) →
        after = dictionary ∨ after = { dictionary with damaged := true } := by
  have sustains := attained.sustains
  have start : Spared dictionary dictionary := .inl rfl
  refine ⟨?_, ?_, ?_⟩
  · intro word unigram refused
    exact spares_addUnigram sustains word unigram dictionary error after start refused
  · intro first bigram refused
    exact spares_addBigram sustains first bigram dictionary error after start refused
  · intro first second refused
    exact spares_removeBigram first second dictionary error after start refused

/-- From the image of a content whose forests are read back a dictionary is opened, also when it is in
the only file that there is. -/
theorem exists_openFile_lone {content : Content}
    (words : content.words.Readable) (followers : content.followers.Readable)
    (few : content.unigramCount < LittleEndian.span 4 ∧ content.bigramCount < LittleEndian.span 4)
    (short : content.terminals.size < LittleEndian.span 4 ∧
      content.records.size < LittleEndian.span 4) (limits : Configuration) :
    ∃ image, Image.encode ⟨.plain, "en", default⟩ content = .ok image ∧
      openFile ⟨[(["m"], .file image.toByteArray)]⟩ "m" 0 0 true limits =
        .ok (ofContent ⟨.plain, "en", default⟩ content.reloaded true limits) := by
  have fits : Header.Storable ⟨.plain, "en", default⟩ := ⟨by decide, by decide, nofun, nofun⟩
  obtain ⟨image, encoded⟩ := Image.exists_encode fits short.1 short.2
  have some : image ≠ [] := by
    obtain ⟨_, _, _, _, rfl, _⟩ := Image.exists_parts encoded
    exact nofun
  have accepted := Image.decode_eq words.takes followers.takes few.1 few.2 encoded
  exact ⟨image, encoded,
    openFile_whole some (Directory.mapFile_lone (by cbv) _) accepted true limits⟩

/-- A path of nodes along the lowest labels, from a slot on, that goes on below the last level. -/
def sunkenPath (top : Nat) : List Slot :=
  (List.range levels).map (fun level => .node (LabelSet.singleton 0) (top + level + 1) 0) ++
    [Slot.empty]

/-- Such a path stands below the first letter of a word without a terminal record, and at the root of
the forest of bigrams. -/
def sunken : Content :=
  { words :=
      ⟨.ofSlots (.node (LabelSet.singleton (Label.ofKey 1 0)) 1 0 :: .entry 1 1 (some 2) ::
        sunkenPath 2).toArray, 1⟩
    followers := ⟨.ofSlots (sunkenPath 0).toArray, 0⟩ }

/-- The image of that is accepted. -/
theorem exists_openFile_sunken :
    ∃ image, Image.encode ⟨.plain, "en", default⟩ sunken = .ok image ∧
      openFile ⟨[(["m"], .file image.toByteArray)]⟩ "m" 0 0 true .standard =
        .ok (ofContent ⟨.plain, "en", default⟩ sunken.reloaded true .standard) :=
  exists_openFile_lone (by decide +kernel) (by decide +kernel) ⟨by decide, by decide⟩
    ⟨by decide, by decide⟩ .standard

/-- Storing a word or a bigram there ends below the last level, after its room was reserved, and the
dictionary stays as it was.  A word whose terminal record is missing is damage that is noted. -/
theorem Attained.refused_spared_sunken :
    ∃ image dictionary, Image.encode ⟨.plain, "en", default⟩ sunken = .ok image ∧
      openFile ⟨[(["m"], .file image.toByteArray)]⟩ "m" 0 0 true .standard = .ok dictionary ∧
      dictionary.damaged = false ∧
      (∃ after, (addUnigram [1, 0] { probability := 7 }).apply dictionary =
          (.error (.format (.keyTooDeep 0)), after) ∧
        (after = dictionary ∨ after = { dictionary with damaged := true })) ∧
      (∃ after, (addUnigram [1] { probability := 7 }).apply dictionary =
          (.error (.format (.badTerminal 0)), after) ∧
        (after = dictionary ∨ after = { dictionary with damaged := true })) ∧
      (∃ after, (addBigram [1] { target := [1], probability := 7 }).apply dictionary =
          (.error (.format (.keyTooDeep 0)), after) ∧
        (after = dictionary ∨ after = { dictionary with damaged := true })) ∧
      ∃ after, (removeBigram [1] [2]).apply dictionary = (.error .wordNotFound, after) ∧
        (after = dictionary ∨ after = { dictionary with damaged := true }) := by
  obtain ⟨image, encoded, opened⟩ := exists_openFile_sunken
  generalize same : ofContent ⟨.plain, "en", default⟩ sunken.reloaded true .standard = dictionary
    at opened
  have refused := fun error after => (Attained.opened opened).refused_spared error after
  have ends : ∀ (change : Mutation Dictionary Unit) (error : Error),
      (change.apply dictionary).1 = .error error →
        ∃ after, change.apply dictionary = (.error error, after) :=
    fun _ _ told => ⟨_, Prod.ext told rfl⟩
  refine ⟨image, dictionary, encoded, opened, by rw [← same]; rfl, ?_, ?_, ?_, ?_⟩
  · obtain ⟨after, done⟩ := ends (addUnigram [1, 0] { probability := 7 })
      (.format (.keyTooDeep 0)) (by rw [← same]; rfl)
    exact ⟨after, done, (refused _ _).1 _ _ done⟩
  · obtain ⟨after, done⟩ := ends (addUnigram [1] { probability := 7 })
      (.format (.badTerminal 0)) (by rw [← same]; rfl)
    exact ⟨after, done, (refused _ _).1 _ _ done⟩
  · obtain ⟨after, done⟩ := ends (addBigram [1] { target := [1], probability := 7 })
      (.format (.keyTooDeep 0)) (by rw [← same]; rfl)
    exact ⟨after, done, (refused _ _).2.1 _ _ done⟩
  · obtain ⟨after, done⟩ := ends (removeBigram [1] [2]) .wordNotFound (by rw [← same]; rfl)
    exact ⟨after, done, (refused _ _).2.2 _ _ done⟩

end Dictionary

end Lexicon
