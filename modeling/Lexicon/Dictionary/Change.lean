/-
Module: Lexicon.Dictionary.Change
Layer: Dictionary
Purpose: Adding words, adding bigrams and removing bigrams.
Imports: Lexicon.Bytes.Buffer, Lexicon.Dictionary.Lookup
Trusted boundary: none
Main exports: Dictionary.addUnigram, Dictionary.addBigram, Dictionary.removeBigram,
  Dictionary.reserve
-/
import Lexicon.Bytes.Buffer
import Lexicon.Dictionary.Lookup

namespace Lexicon

namespace Dictionary

/-! ### Checks -/

/-- Words that are stored have one to forty-eight code points. -/
def checkWord (word : Word) : Except Error Unit :=
  if word.isEmpty || word.length > maxWordLength then .error (.invalidWord word.length) else .ok ()

/-- Probabilities that are stored fit a byte. -/
def checkProbability (probability : Int) : Except Error Unit :=
  if isProbability probability then .ok () else .error (.invalidProbability probability)

/-- The largest number of shortcuts of a word. -/
def maxShortcuts : Nat := 255

/-- A shortcut has a target that could be stored, and a probability that can be. -/
def checkShortcut (shortcut : Shortcut) : Except Error Unit := do
  checkWord shortcut.target
  checkProbability shortcut.probability

/-- What can be checked of a unigram without looking into the dictionary. -/
def checkUnigram (word : Word) (unigram : Unigram) : Except Error Unit := do
  checkWord word
  checkProbability unigram.probability
  if unigram.shortcuts.length > maxShortcuts then
    .error (.limitReached .shortcuts maxShortcuts)
  else
    unigram.shortcuts.forM checkShortcut

/-- What can be checked of a bigram without looking into the dictionary. -/
def checkBigram (first : Word) (bigram : Bigram) : Except Error Unit := do
  checkWord first
  checkWord bigram.target
  checkProbability bigram.probability

/-- Changes are accepted. -/
def checkUpdatable (dictionary : Dictionary) : Except Error Unit :=
  if dictionary.updatable then .ok () else .error .notUpdatable

/-- The most slots by which storing one key can make a forest grow: a run that moves to a longer
one, entries pushed down to the last level, and a nested table. -/
def slotsPerKey : Nat := 48

/-- Buffers never grow beyond what signed 32-bit offsets can tell apart. -/
def maxBufferBytes : Nat := 0x7fffffff

/-- Whether there is room for some bytes of records and for some keys, in the worst case. -/
def reserve (dictionary : Dictionary) (recordBytes keys : Nat) : Except Error Unit :=
  let capacity := min dictionary.configuration.capacity maxBufferBytes
  let used := dictionary.usedBytes
  let requested := recordBytes + keys * slotsPerKey * Slot.byteSize
  if used + requested > capacity then .error (.bufferFull used requested capacity) else .ok ()

/-! ### Unigrams -/

/-- Files a word: every code point but the last gets an entry that leads further, unless it has one,
and the last one names the word's terminal record. -/
def fileWord (terminal : Nat) : (table : Table) → Word → Mutation Forest Unit
  | _, [] => throw (.invalidWord 0)
  | table, [last] => Mutation.ofChange fun words => words.put table last (terminal + 1)
  | table, codePoint :: next :: rest => do
      let words ← get
      if !words.contains table codePoint then
        Mutation.ofChange fun words => words.put table codePoint 0
      let nested ← Mutation.ofChange fun words =>
        match words.createNested? table codePoint with
        | (some nested, words) => (.ok nested, words)
        | (none, words) => (.error .forestFull, words)
      fileWord terminal nested (next :: rest)

/-- Changes the forest of words. -/
def onWords {α : Type} : Mutation Forest α → Mutation Dictionary α :=
  Mutation.onPart (·.content.words) fun dictionary words =>
    { dictionary with content := { dictionary.content with words := words } }

/-- Changes the forest of bigrams. -/
def onFollowers {α : Type} : Mutation Forest α → Mutation Dictionary α :=
  Mutation.onPart (·.content.followers) fun dictionary followers =>
    { dictionary with content := { dictionary.content with followers := followers } }

/-- Changes what is stored beside the two forests. -/
def onContent (change : Content → Content) : Mutation Dictionary Unit :=
  modify fun dictionary => { dictionary with content := change dictionary.content }

/-- Counts bytes that are no longer part of any current record. -/
def supersede (bytes : Nat) : Mutation Dictionary Unit :=
  modify fun dictionary => { dictionary with superseded := dictionary.superseded + bytes }

/-- Gives a word that is stored a new unigram record, and leaves the old one behind. -/
def replaceUnigram (offset : Nat) (record : List UInt8) : Mutation Dictionary Unit := do
  let dictionary ← get
  let some terminal ← dictionary.readTerminal offset
    | throw (.format (.badTerminal offset))
  dictionary.reserve record.length 0
  let old ← dictionary.readUnigram terminal.unigram
  let pointer := LittleEndian.encode 4 dictionary.content.records.size
  onContent fun content =>
    { content with
      records := Buffer.append content.records record
      terminals := Buffer.overwrite content.terminals (offset + terminal.pointerField) pointer }
  supersede ((old.map (·.2)).getD 0)

/-- Stores a word that is not stored yet. -/
def insertUnigram (word : Word) (record : List UInt8) : Mutation Dictionary Unit := do
  let dictionary ← get
  let limit := dictionary.configuration.maxUnigrams
  Mutation.require (dictionary.content.unigramCount < limit) (.limitReached .unigrams limit)
  let terminal := Terminal.encode { word := word, unigram := dictionary.content.records.size }
  dictionary.reserve (record.length + terminal.length) word.length
  onWords (fileWord dictionary.content.terminals.size Forest.root word)
  onContent fun content =>
    { content with
      terminals := Buffer.append content.terminals terminal
      records := Buffer.append content.records record
      unigramCount := content.unigramCount + 1 }

/-- Stores what is known about a word.  A word that is stored keeps its place among the words, and
its bigrams. -/
def addUnigram (word : Word) (unigram : Unigram) : Mutation Dictionary Unit := do
  let dictionary ← get
  dictionary.checkUpdatable
  checkUnigram word unigram
  let record := unigram.encode dictionary.version
  match ← dictionary.find word with
  | some offset => replaceUnigram offset record
  | none => insertUnigram word record

/-! ### Bigrams -/

/-- The terminal offset of a word that has to be stored. -/
def require (word : Word) : Mutation Dictionary Nat := do
  let dictionary ← get
  match ← dictionary.find word with
  | some offset => pure offset
  | none => throw .wordNotFound

/-- Files a bigram record under the offsets of its two words. -/
def fileBigram (source target record : Nat) : Mutation Forest Unit := do
  let followers ← get
  if !followers.contains Forest.root (wordKey source) then
    Mutation.ofChange fun followers => followers.put Forest.root (wordKey source) 0
  let table ← Mutation.ofChange fun followers =>
    match followers.createNested? Forest.root (wordKey source) with
    | (some table, followers) => (.ok table, followers)
    | (none, followers) => (.error .forestFull, followers)
  Mutation.ofChange fun followers => followers.put table (wordKey target) record

/-- Whether a bigram between two stored words is there. -/
def hasBigram (dictionary : Dictionary) (source target : Nat) : Bool :=
  match dictionary.followerTable source with
  | none => false
  | some table => dictionary.content.followers.contains table (wordKey target)

/-- Files the record of a bigram, new or not, between two stored words. -/
def storeBigram (source target : Nat) (record : List UInt8) : Mutation Dictionary Unit := do
  let dictionary ← get
  let known := dictionary.hasBigram source target
  if known then
    dictionary.reserve record.length 0
  else
    let limit := dictionary.configuration.maxBigrams
    Mutation.require (dictionary.content.bigramCount < limit) (.limitReached .bigrams limit)
    dictionary.reserve record.length 2
  onFollowers (fileBigram source target dictionary.content.records.size)
  onContent fun content => { content with records := Buffer.append content.records record }
  if known then
    supersede (BigramRecord.size dictionary.version)
  else
    onContent fun content => { content with bigramCount := content.bigramCount + 1 }

/-- Stores what is known about one word following another.  Both words have to be stored. -/
def addBigram (first : Word) (bigram : Bigram) : Mutation Dictionary Unit := do
  let dictionary ← get
  dictionary.checkUpdatable
  checkBigram first bigram
  let source ← require first
  let target ← require bigram.target
  storeBigram source target (bigram.encode dictionary.version)

/-- Takes a bigram between two stored words away, if it is there. -/
def dropBigram (source target : Nat) : Mutation Dictionary Unit := do
  let dictionary ← get
  match dictionary.followerTable source with
  | none => pure ()
  | some table =>
      let removed ← onFollowers (Mutation.ofChange fun followers =>
        let (removed, followers) := followers.erase table (wordKey target)
        (.ok removed, followers))
      if removed then
        onContent fun content => { content with bigramCount := content.bigramCount - 1 }
        supersede (BigramRecord.size dictionary.version)

/-- Removes a bigram.  Both words have to be stored, but the bigram need not be there. -/
def removeBigram (first second : Word) : Mutation Dictionary Unit := do
  let dictionary ← get
  dictionary.checkUpdatable
  checkWord first
  checkWord second
  let source ← require first
  let target ← require second
  dropBigram source target

end Dictionary

end Lexicon
