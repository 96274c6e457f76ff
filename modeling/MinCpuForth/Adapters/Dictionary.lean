import MinCpuForth.Adapters.CountedString
import MinCpuForth.Domain.Layout

/-!
# The dictionary

`adapters/system_variables.py` and `adapters/dictionary.py`: headers
`[link][immediate][smudge][name-length][name...][code-field]` and threads, appended at `DP` and
linked from `LATEST`.
-/

namespace MinCpuForth.Adapters
open Python Domain Layout ListMemoryAdapter

/-- A word's header, decoded from memory. -/
structure DictionaryHeaderDto where
  name : PyStr
  link : ℤ
  immediate : Bool
  smudge : Bool
  cfa : ℤ
  deriving DecidableEq, Repr

variable {n : ℕ}

namespace MemorySystemVariablesAdapter

/-- `DP` (HERE), the next free dictionary cell. -/
def dp : EStateM PyError (ListMemoryAdapter n) ℤ := load DP_ADDR

def set_dp (value : ℤ) : EStateM PyError (ListMemoryAdapter n) Unit := store DP_ADDR value

/-- `LATEST`, the name field of the newest word. -/
def latest : EStateM PyError (ListMemoryAdapter n) ℤ := load LATEST_ADDR

def set_latest (value : ℤ) : EStateM PyError (ListMemoryAdapter n) Unit := store LATEST_ADDR value

end MemorySystemVariablesAdapter

namespace MemoryDictionaryAdapter
open MemorySystemVariablesAdapter

/-- `MemoryDictionaryAdapter.__init__`: resets the dictionary. -/
def init : EStateM PyError (ListMemoryAdapter n) Unit := do
  set_dp DICTIONARY_BASE
  set_latest 0

def here : EStateM PyError (ListMemoryAdapter n) ℤ := dp

/-- Appends one raw cell and returns its address. -/
def append_cell (value : ℤ) : EStateM PyError (ListMemoryAdapter n) ℤ := do
  let address ← dp
  store address value
  set_dp (address + 1)
  return address

/-- The loop over the items of a thread. -/
def append_thread : List ℤ → EStateM PyError (ListMemoryAdapter n) Unit
  | [] => return ()
  | item :: thread => do
    let _ ← append_cell item
    append_thread thread

/-- Writes the name as a counted string at `DP`, moves `DP` past it and returns the name field. -/
def append_name (name : PyStr) : EStateM PyError (ListMemoryAdapter n) ℤ := do
  let name_field ← here
  set_dp (← MemoryCountedStringAdapter.write name_field name)
  return name_field

/-- Appends a word and returns its code field address. -/
def append_word (name : PyStr) (code_field : ℤ) (thread : List ℤ) (immediate : Bool) :
    EStateM PyError (ListMemoryAdapter n) ℤ := do
  let _ ← append_cell (← latest)
  let _ ← append_cell (if immediate then 1 else 0)
  let _ ← append_cell 0
  let name_field ← append_name name
  let cfa ← here
  let _ ← append_cell code_field
  append_thread thread
  set_latest name_field
  return cfa

/-- Decodes the header whose name field is at `name_field`. -/
def read_header (name_field : ℤ) : EStateM PyError (ListMemoryAdapter n) DictionaryHeaderDto := do
  let start := name_field - HeaderField.NAME_LENGTH
  let name ← MemoryCountedStringAdapter.read name_field
  let link ← load (start + HeaderField.LINK)
  let immediate ← load (start + HeaderField.IMMEDIATE)
  let smudge ← load (start + HeaderField.SMUDGE)
  return { name := name, link := link, immediate := immediate != 0, smudge := smudge != 0,
           cfa := name_field + 1 + name.length }

/-- The `while` loop of `headers`, from a name field on, for at most `fuel` turns; `none` tells that
    they do not suffice. -/
def headersFrom : ℕ → ℤ → EStateM PyError (ListMemoryAdapter n) (Option (List DictionaryHeaderDto))
  | 0, _ => return none
  | fuel + 1, name_field =>
    if name_field = 0 then return some []
    else do
      let header ← read_header name_field
      let next ← load (name_field - HeaderField.NAME_LENGTH)
      let headers ← headersFrom fuel next
      return headers.map (header :: ·)

/-- Every installed word's header, newest first. -/
def headers (fuel : ℕ) :
    EStateM PyError (ListMemoryAdapter n) (Option (List DictionaryHeaderDto)) := do
  headersFrom fuel (← latest)

/-- The loop of `find` over the generator of `headers`, which it leaves at the first match. -/
def findFrom (name : PyStr) :
    ℕ → ℤ → EStateM PyError (ListMemoryAdapter n) (Option (Option DictionaryHeaderDto))
  | 0, _ => return none
  | fuel + 1, name_field =>
    if name_field = 0 then return some none
    else do
      let header ← read_header name_field
      if header.name = name then return some (some header)
      else
        let next ← load (name_field - HeaderField.NAME_LENGTH)
        findFrom name fuel next

/-- The header of `name`, newest first. -/
def find (fuel : ℕ) (name : PyStr) :
    EStateM PyError (ListMemoryAdapter n) (Option (Option DictionaryHeaderDto)) := do
  findFrom name fuel (← latest)

end MemoryDictionaryAdapter

end MinCpuForth.Adapters
