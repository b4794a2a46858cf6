import Stim.Cli.GitIndex
import Stim.Lib.Reading

/-!
# What is read of an index is what it holds

The format of an index, as gitformat-index(5) has it: entries whose names are padded or, in
version 4, compressed against the name before, then extensions, then a checksum.  The reader gives
the names of the entries; it gives null for a file that ends inside the entries, and for one with
an extension that must not be passed over; and it reads behind no file's end.

What the other fields of an entry mean is left out, and so is the order of the entries.
-/

namespace Stim.GitIndex

open Reading

/-! ## The format -/

/-- The bytes of git's offset varint before its last one. -/
def varintHigh (n : Nat) : List UInt8 :=
  (if n < 128 then [] else varintHigh (n / 128 - 1)) ++ [UInt8.ofNat (n % 128 + 128)]
termination_by n

/-- git's offset varint (`encode_varint`). -/
def encodeVarint (n : Nat) : List UInt8 :=
  (if n < 128 then [] else varintHigh (n / 128 - 1)) ++ [UInt8.ofNat (n % 128)]

structure Entry where
  stat : List UInt8
  stat_length : stat.length = STAT_BYTES
  object : List UInt8
  object_length : object.length = SHA1_BYTES
  assumeValid : Bool
  stage : Fin 4
  extended : Option (UInt8 × UInt8)
  name : List UInt8
  name_ne_nil : name ≠ []
  name_no_zero : 0 ∉ name

namespace Entry

variable (entry : Entry)

/-- The flags: a name of 4095 bytes or more has 4095 for its length. -/
def flags : Nat :=
  (if entry.assumeValid then 0x8000 else 0) + (if entry.extended.isSome then 0x4000 else 0) +
    entry.stage.val * 0x1000 + min entry.name.length 0xFFF

def extendedFlags : List UInt8 :=
  match entry.extended with
  | some (high, low) => [high, low]
  | none => []

/-- The fields before the name. -/
def head : List UInt8 :=
  entry.stat ++ entry.object ++ BigEndian.bytes 2 entry.flags ++ entry.extendedFlags

end Entry

/-- How a name is written behind the fields of its entry. -/
inductive WritesName (version : Nat) (previous : List UInt8) (entry : Entry) :
    List UInt8 → Prop where
  | padded (h : version ≠ 4) : WritesName version previous entry
      (entry.name ++
        List.replicate (8 - (entry.head.length + entry.name.length) % 8) 0)
  | compressed (h : version = 4) (strip : Nat) (suffix : List UInt8)
      (hstrip : strip ≤ previous.length)
      (hname : entry.name = previous.take (previous.length - strip) ++ suffix) :
      WritesName version previous entry (encodeVarint strip ++ suffix ++ [0])

inductive WritesEntries (version : Nat) : List UInt8 → List Entry → List UInt8 → Prop where
  | nil {previous : List UInt8} : WritesEntries version previous [] []
  | cons {previous bytes more : List UInt8} {entry : Entry} {entries : List Entry}
      (hextended : version < 3 → entry.extended = none)
      (hname : WritesName version previous entry bytes)
      (hmore : WritesEntries version entry.name entries more) :
      WritesEntries version previous (entry :: entries) (entry.head ++ bytes ++ more)

structure Extension where
  first : UInt8
  signature : List UInt8
  signature_length : signature.length = 3
  data : List UInt8
  data_length : data.length < 256 ^ 4

namespace Extension

/-- A reader that does not know the extension may pass it over. -/
def isOptional (extension : Extension) : Bool :=
  0x41 ≤ extension.first.toNat && extension.first.toNat ≤ 0x5a

def bytes (extension : Extension) : List UInt8 :=
  extension.first :: extension.signature ++ BigEndian.bytes 4 extension.data.length ++
    extension.data

end Extension

structure Index where
  version : Nat
  version_known : 2 ≤ version ∧ version ≤ 4
  entries : List Entry
  entries_length : entries.length < 256 ^ 4
  extensions : List Extension
  checksum : List UInt8
  checksum_length : checksum.length = SHA1_BYTES

namespace Index

variable (index : Index)

def header : List UInt8 :=
  GitIndex.signature ++ BigEndian.bytes 4 index.version ++
    BigEndian.bytes 4 index.entries.length

/-- The bytes of an index whose entries are written as `body`. -/
def file (body : List UInt8) : List UInt8 :=
  index.header ++ body ++ index.extensions.flatMap Extension.bytes ++ index.checksum

def Body (body : List UInt8) : Prop := WritesEntries index.version [] index.entries body

end Index

/-! ## Varints -/

theorem toInt32_eq {n : Int} (h : 0 ≤ n) (hlt : n < 2 ^ 31) : toInt32 n = n := by
  unfold toInt32
  omega

theorem varintMore_last {value : Int} {byte : UInt8} (h : byte.toNat < 128) (pos : Nat)
    (rest : List UInt8) : varintMore value byte pos rest = some (value, pos) := by
  cases rest <;> rw [varintMore, if_pos h]

theorem varintMore_next {value : Int} {byte : UInt8} (h : ¬ byte.toNat < 128) (pos : Nat)
    (next : UInt8) (rest : List UInt8) :
    varintMore value byte pos (next :: rest) =
      varintMore (toInt32 ((value + 1) * 128) + next.toNat % 128) next (pos + 1) rest := by
  rw [varintMore, if_neg h]

/-- The value of the bytes before the last one goes into the byte behind them. -/
theorem varintMore_high (n : Nat) (hn : n < 2 ^ 31) (pos : Nat) (byte : UInt8) (rest : List UInt8) :
    ∃ first more, varintHigh n ++ byte :: rest = first :: more ∧
      varintMore (first.toNat % 128) first (pos + 1) more =
        varintMore (toInt32 (((n : Int) + 1) * 128) + byte.toNat % 128) byte
          (pos + (varintHigh n).length + 1) rest := by
  have htoNat : (UInt8.ofNat (n % 128 + 128)).toNat = n % 128 + 128 := by
    rw [UInt8.toNat_ofNat']
    omega
  have hlarge : ¬ (UInt8.ofNat (n % 128 + 128)).toNat < 128 := by omega
  induction n using Nat.strongRecOn generalizing byte rest with
  | ind n ih =>
      rw [varintHigh]
      by_cases hsmall : n < 128
      · refine ⟨UInt8.ofNat (n % 128 + 128), byte :: rest, by rw [if_pos hsmall]; rfl, ?_⟩
        have hvalue : (((UInt8.ofNat (n % 128 + 128)).toNat : Int) % 128) = n := by omega
        rw [varintMore_next hlarge, hvalue, if_pos hsmall]
        rfl
      · have hm : n / 128 - 1 < n := by omega
        have htoNat' : (UInt8.ofNat ((n / 128 - 1) % 128 + 128)).toNat =
            (n / 128 - 1) % 128 + 128 := by
          rw [UInt8.toNat_ofNat']
          omega
        obtain ⟨first, more, hbytes, hmore⟩ := ih (n / 128 - 1) hm (by omega)
          (UInt8.ofNat (n % 128 + 128)) (byte :: rest) htoNat' (by omega)
        refine ⟨first, more, ?_, ?_⟩
        · rw [if_neg hsmall, List.append_assoc]
          exact hbytes
        · have hvalue : toInt32 ((((n / 128 - 1 : Nat) : Int) + 1) * 128) +
              ((UInt8.ofNat (n % 128 + 128)).toNat : Int) % 128 = n := by
            rw [toInt32_eq (by omega) (by omega)]
            omega
          rw [hmore, varintMore_next hlarge, hvalue, if_neg hsmall, List.length_append,
            List.length_singleton]
          rfl

/-- A varint is read as what it encodes. -/
theorem varint_encode {data rest : List UInt8} {n pos : Nat} (hn : n < 2 ^ 31)
    (h : data.drop pos = encodeVarint n ++ rest) :
    varint data pos = some ((n : Int), pos + (encodeVarint n).length) := by
  have htoNat : (UInt8.ofNat (n % 128)).toNat = n % 128 := by
    rw [UInt8.toNat_ofNat']
    omega
  have hlast : (UInt8.ofNat (n % 128)).toNat < 128 := by omega
  rw [varint, h, encodeVarint]
  by_cases hsmall : n < 128
  · have hvalue : (((UInt8.ofNat (n % 128)).toNat : Int) % 128) = n := by omega
    rw [if_pos hsmall]
    show varintMore _ _ (pos + 1) rest = _
    rw [varintMore_last hlast, hvalue]
    rfl
  · obtain ⟨first, more, hbytes, hmore⟩ := varintMore_high (n / 128 - 1) (by omega) pos
      (UInt8.ofNat (n % 128)) rest
    have hvalue : toInt32 ((((n / 128 - 1 : Nat) : Int) + 1) * 128) +
        ((UInt8.ofNat (n % 128)).toNat : Int) % 128 = n := by
      rw [toInt32_eq (by omega) (by omega)]
      omega
    rw [if_neg hsmall, List.append_assoc, List.singleton_append, hbytes]
    show varintMore _ _ (pos + 1) more = _
    rw [hmore, varintMore_last hlast, hvalue, List.length_append, List.length_singleton,
      Nat.add_assoc]

/-! ## Reading at a position -/

section

variable {data front rest : List UInt8} {pos n : Nat}

theorem readUInt16BE_eq (h : data.drop pos = BigEndian.bytes 2 n ++ rest) (hn : n < 256 ^ 2) :
    readUInt16BE data pos = .ok n := by
  have hlength := congrArg List.length h
  rw [List.length_drop, List.length_append, BigEndian.length_bytes] at hlength
  rw [readUInt16BE, if_pos (by omega), h, List.take_left' (BigEndian.length_bytes 2 n),
    BigEndian.value_bytes hn]

theorem readUInt32BE_eq (h : data.drop pos = BigEndian.bytes 4 n ++ rest) (hn : n < 256 ^ 4) :
    readUInt32BE data pos = .ok n := by
  have hlength := congrArg List.length h
  rw [List.length_drop, List.length_append, BigEndian.length_bytes] at hlength
  rw [readUInt32BE, if_pos (by omega), h, List.take_left' (BigEndian.length_bytes 4 n),
    BigEndian.value_bytes hn]

theorem indexOfZero_eq (hfront : 0 ∉ front) (h : data.drop pos = front ++ 0 :: rest) :
    indexOfZero data pos = some (pos + front.length) := by
  have hnone : front.findIdx? (· == 0) = none := by
    rw [List.findIdx?_eq_none_iff]
    intro byte hbyte
    exact beq_false_of_ne fun heq => hfront (heq ▸ hbyte)
  rw [indexOfZero, h, List.findIdx?_append, hnone]
  simp [List.findIdx?_cons]

theorem subarray_eq (h : data.drop pos = front ++ rest) :
    subarray data pos (pos + front.length) = front := by
  exact slice_of_drop h

end

/-! ## Reading an entry -/

namespace Entry

variable (entry : Entry)

theorem flags_lt : entry.flags < 256 ^ 2 := by
  have := entry.stage.isLt
  unfold flags
  split_ifs <;> omega

/-- The flag of the extended flags is the fourteenth bit. -/
theorem flags_extended : (entry.flags &&& EXTENDED != 0) = entry.extended.isSome := by
  have hstage := entry.stage.isLt
  have hbit : entry.flags.testBit 14 = entry.extended.isSome := by
    rw [Nat.testBit_eq_decide_div_mod_eq]
    unfold flags
    cases entry.extended with
    | none =>
        rw [Option.isSome_none, decide_eq_false_iff_not, if_neg Bool.false_ne_true]
        split_ifs <;> omega
    | some both =>
        rw [Option.isSome_some, decide_eq_true_eq, if_pos rfl]
        split_ifs <;> omega
  have hand : entry.flags &&& EXTENDED = (entry.flags.testBit 14).toNat * 2 ^ 14 := by
    refine Nat.eq_of_testBit_eq fun i => ?_
    have hextended : EXTENDED.testBit i = decide (14 = i) :=
      (rfl : EXTENDED.testBit i = (2 ^ 14).testBit i).trans Nat.testBit_two_pow
    have hsame : (true.toNat * 2 ^ 14).testBit i = decide (14 = i) := by
      rw [Bool.toNat_true, Nat.one_mul]
      exact Nat.testBit_two_pow
    rw [Nat.testBit_and, hextended]
    by_cases hi : 14 = i
    · subst hi
      cases hflag : entry.flags.testBit 14 with
      | false => simp
      | true => rw [hsame]; rfl
    · cases hflag : entry.flags.testBit 14 with
      | false => simp [hi]
      | true => rw [hsame, decide_eq_false hi, Bool.and_false]
  rw [hand, hbit]
  cases entry.extended <;> rfl

theorem length_extendedFlags :
    entry.extendedFlags.length = if entry.extended.isSome then 2 else 0 := by
  unfold extendedFlags
  cases entry.extended <;> rfl

theorem length_head : entry.head.length = 62 + if entry.extended.isSome then 2 else 0 := by
  rw [head, List.length_append, List.length_append, List.length_append, entry.stat_length,
    entry.object_length, BigEndian.length_bytes, length_extendedFlags]
  rfl

end Entry

variable {version : Nat} {previous bytes rest data : List UInt8} {entry : Entry} {start last : Nat}

/-- A name is read as it is written. -/
theorem readName_eq (hsmall : data.length < 2 ^ 31) (hlast : last ≤ data.length)
    (hname : WritesName version previous entry bytes) (hprevious : previous.length ≤ start)
    (h : data.drop (start + entry.head.length) = bytes ++ rest)
    (hwithin : start + entry.head.length + bytes.length ≤ last) :
    readName version data last start (start + entry.head.length) previous =
      some (entry.name, start + entry.head.length + bytes.length) := by
  cases hname with
  | padded hversion =>
      have hpad : 8 - (entry.head.length + entry.name.length) % 8 =
          (7 - (entry.head.length + entry.name.length) % 8) + 1 := by omega
      have hbytes : data.drop (start + entry.head.length) = entry.name ++
          0 :: (List.replicate (7 - (entry.head.length + entry.name.length) % 8) 0 ++ rest) := by
        rw [h, hpad, List.replicate_succ, List.append_assoc, List.cons_append]
      rw [List.length_append, List.length_replicate] at hwithin ⊢
      rw [readName, if_neg hversion, indexOfZero_eq entry.name_no_zero hbytes]
      simp only
      rw [if_neg (by omega), subarray_eq hbytes, roundUp, toInt32_eq (by omega) (by omega)]
      congr 2
      omega
  | compressed hversion strip suffix hstrip hsuffix =>
      have hno : 0 ∉ suffix := fun hmem => entry.name_no_zero (by rw [hsuffix]; simp [hmem])
      have hvarint : data.drop (start + entry.head.length) =
          encodeVarint strip ++ (suffix ++ 0 :: rest) := by
        rw [h]
        simp
      have hrest : data.drop (start + entry.head.length + (encodeVarint strip).length) =
          suffix ++ 0 :: rest := drop_behind hvarint
      simp only [List.length_append, List.length_singleton] at hwithin ⊢
      rw [readName, if_pos hversion, varint_encode (by omega) hvarint]
      simp only
      rw [if_neg (by omega), indexOfZero_eq hno hrest]
      simp only
      rw [if_neg (by omega), subarray_eq hrest]
      congr 2
      · rw [hsuffix]
        congr 2
        omega
      · omega

/-- An entry is read as it is written. -/
theorem readEntry_eq (hsmall : data.length < 2 ^ 31) (hlast : last ≤ data.length)
    (hextended : version < 3 → entry.extended = none)
    (hname : WritesName version previous entry bytes) (hprevious : previous.length ≤ start)
    (h : data.drop start = entry.head ++ bytes ++ rest)
    (hwithin : start + entry.head.length + bytes.length ≤ last) :
    readEntry version data last start previous =
      .ok (some (entry.name, start + entry.head.length + bytes.length)) := by
  have hhead := entry.length_head
  have hflags : data.drop (start + STAT_BYTES + SHA1_BYTES) =
      BigEndian.bytes 2 entry.flags ++ (entry.extendedFlags ++ bytes ++ rest) := by
    have hfront : data.drop start = (entry.stat ++ entry.object) ++
        (BigEndian.bytes 2 entry.flags ++ (entry.extendedFlags ++ bytes ++ rest)) := by
      rw [h, Entry.head]
      simp only [List.append_assoc]
    have := drop_behind hfront
    rwa [List.length_append, entry.stat_length, entry.object_length, ← Nat.add_assoc] at this
  have hbytes : data.drop (start + entry.head.length) = bytes ++ rest :=
    drop_behind (by rw [h, List.append_assoc])
  have hbound : ¬ last < start + STAT_BYTES + SHA1_BYTES + 2 := by
    unfold STAT_BYTES SHA1_BYTES
    omega
  have hempty : entry.name.isEmpty = false := by
    simpa using entry.name_ne_nil
  have hskip : ¬ (entry.extended.isSome && decide (version < 3)) = true := by
    rw [Bool.and_eq_true, decide_eq_true_eq]
    rintro ⟨hsome, hlt⟩
    rw [hextended hlt] at hsome
    cases hsome
  have hpos : (if entry.extended.isSome = true then start + STAT_BYTES + SHA1_BYTES + 2 + 2
      else start + STAT_BYTES + SHA1_BYTES + 2) = start + entry.head.length := by
    rw [hhead]
    unfold STAT_BYTES SHA1_BYTES
    split_ifs <;> omega
  rw [readEntry]
  simp only
  rw [if_neg hbound, readUInt16BE_eq hflags entry.flags_lt]
  simp only [Except.map, entry.flags_extended]
  rw [if_neg hskip, hpos, readName_eq hsmall hlast hname hprevious hbytes hwithin]
  simp only
  rw [hempty]
  rfl

theorem length_name_le (hname : WritesName version previous entry bytes) :
    entry.name.length ≤ previous.length + bytes.length := by
  cases hname with
  | padded =>
      rw [List.length_append]
      omega
  | compressed _ strip suffix _ hsuffix =>
      rw [hsuffix]
      simp only [List.length_append, List.length_take]
      omega

/-- Entries are read as they are written. -/
theorem readEntries_eq (hsmall : data.length < 2 ^ 31) (hlast : last ≤ data.length)
    {entries : List Entry} {body : List UInt8}
    (hbody : WritesEntries version previous entries body) (hprevious : previous.length ≤ start)
    (h : data.drop start = body ++ rest) (hwithin : start + body.length ≤ last) :
    readEntries version data last entries.length start previous =
      .ok (some (entries.map Entry.name, start + body.length)) := by
  induction hbody generalizing start with
  | nil => rfl
  | @cons previous bytes more entry entries hextended hname hmore ih =>
      simp only [List.length_append] at hwithin ⊢
      have hentry : data.drop start = entry.head ++ bytes ++ (more ++ rest) := by
        rw [h, List.append_assoc]
      have hnext : data.drop (start + entry.head.length + bytes.length) = more ++ rest := by
        have := drop_behind hentry
        rwa [List.length_append, ← Nat.add_assoc] at this
      have hlength := length_name_le hname
      rw [List.length_cons, readEntries, readEntry_eq hsmall hlast hextended hname hprevious hentry
        (by omega)]
      simp only
      rw [ih (by omega) hnext (by omega)]
      simp only [Except.map, Option.map_some, List.map_cons]
      congr 3
      omega

/-- The extensions are passed over if each of them may be. -/
theorem skipExtensions_eq {extensions : List Extension} {checksum : List UInt8}
    (h : data.drop start = extensions.flatMap Extension.bytes ++ checksum)
    (hlast : last = start + (extensions.flatMap Extension.bytes).length) :
    skipExtensions data last start = .ok (extensions.all Extension.isOptional) := by
  induction extensions generalizing start with
  | nil =>
      rw [skipExtensions, if_neg (by simp at hlast; omega)]
      simp at hlast
      simp [hlast]
  | cons extension extensions ih =>
      have hbytes : extension.bytes.length = 8 + extension.data.length := by
        simp only [Extension.bytes, List.length_append, List.length_cons,
          extension.signature_length, BigEndian.length_bytes]
      rw [List.flatMap_cons, List.length_append, hbytes] at hlast
      rw [List.flatMap_cons, List.append_assoc] at h
      have hrest := drop_behind h
      rw [hbytes] at hrest
      have hfirst : data.getD start 0 = extension.first := by
        rw [List.getD_eq_getElem?_getD, getElem?_of_drop h]
        rfl
      have hsize : data.drop (start + 4) = BigEndian.bytes 4 extension.data.length ++
          (extension.data ++ (extensions.flatMap Extension.bytes ++ checksum)) := by
        have hfront : data.drop start = (extension.first :: extension.signature) ++
            (BigEndian.bytes 4 extension.data.length ++
              (extension.data ++ (extensions.flatMap Extension.bytes ++ checksum))) := by
          rw [h, Extension.bytes]
          simp only [List.append_assoc, List.cons_append]
        have := drop_behind hfront
        rwa [List.length_cons, extension.signature_length] at this
      rw [skipExtensions, if_pos (by omega), if_neg (by omega)]
      simp only [hfirst]
      by_cases hoptional : extension.isOptional = true
      · have hknown : ¬ (extension.first.toNat < 0x41 ∨ 0x5a < extension.first.toNat) := by
          simp only [Extension.isOptional, Bool.and_eq_true, decide_eq_true_eq] at hoptional
          omega
        rw [if_neg hknown, readUInt32BE_eq hsize extension.data_length]
        simp only
        rw [ih hrest (by omega), List.all_cons, hoptional, Bool.true_and]
      · have hunknown : extension.first.toNat < 0x41 ∨ 0x5a < extension.first.toNat := by
          simp only [Extension.isOptional, Bool.and_eq_true, decide_eq_true_eq] at hoptional
          omega
        rw [if_pos hunknown, List.all_cons, eq_false_of_ne_true hoptional, Bool.false_and]

namespace Index

variable {index : Index} {body : List UInt8}

theorem length_header (index : Index) : index.header.length = 12 := by
  simp only [header, List.length_append, BigEndian.length_bytes]
  rfl

theorem length_file (index : Index) (body : List UInt8) :
    (index.file body).length = 12 + body.length +
      (index.extensions.flatMap Extension.bytes).length + SHA1_BYTES := by
  rw [file, List.length_append, List.length_append, List.length_append, length_header,
    index.checksum_length]

theorem version_lt (index : Index) : index.version < 256 ^ 4 := by
  have := index.version_known
  omega

/-- What is read of an index: the names of its entries, or null where an extension of it must not
be passed over. -/
theorem parse_file {data : FileBuffer} (hbody : index.Body body)
    (h : data.bytes = index.file body) :
    parseGitIndex data =
      .ok (if index.extensions.all Extension.isOptional then
        some (index.entries.map fun entry => Utf8.decode entry.name).eraseDups else none) := by
  have hlength := index.length_file body
  have hsmall := data.small
  rw [h] at hsmall
  have hheader := index.length_header
  have hfront : (index.file body).take 4 = GitIndex.signature := by
    rw [file, header]
    simp only [List.append_assoc]
    exact List.take_left' rfl
  have hversion : (index.file body).drop 4 = BigEndian.bytes 4 index.version ++
      (BigEndian.bytes 4 index.entries.length ++ (body ++
        (index.extensions.flatMap Extension.bytes ++ index.checksum))) := by
    rw [file, header]
    simp only [List.append_assoc]
    exact List.drop_left' rfl
  have hcount : (index.file body).drop 8 = BigEndian.bytes 4 index.entries.length ++ (body ++
      (index.extensions.flatMap Extension.bytes ++ index.checksum)) := by
    have := drop_behind hversion
    rwa [BigEndian.length_bytes] at this
  have hentries : (index.file body).drop 12 = body ++
      (index.extensions.flatMap Extension.bytes ++ index.checksum) := by
    have := drop_behind hcount
    rwa [BigEndian.length_bytes] at this
  have hextensions : (index.file body).drop (12 + body.length) =
      index.extensions.flatMap Extension.bytes ++ index.checksum := drop_behind hentries
  have hlast : (index.file body).length - SHA1_BYTES =
      12 + body.length + (index.extensions.flatMap Extension.bytes).length := by omega
  have hknown := index.version_known
  have hread := readEntries_eq hsmall (Nat.sub_le _ SHA1_BYTES) hbody (Nat.zero_le 12) hentries
    (by omega)
  unfold parseGitIndex
  simp only [h, bind, Except.bind, readUInt32BE_eq hversion index.version_lt,
    readUInt32BE_eq hcount index.entries_length, hread,
    skipExtensions_eq hextensions hlast]
  rw [if_neg (by rw [hfront]; simp only [ne_eq, not_true_eq_false, or_false]; omega),
    if_neg (by omega), List.map_map]
  rfl

end Index

/-! ## No read behind the end -/

theorem readEntry_total (version : Nat) (data : List UInt8) {last : Nat} (start : Nat)
    (previous : List UInt8) (hlast : last ≤ data.length) :
    ∃ result, readEntry version data last start previous = .ok result := by
  unfold readEntry
  simp only
  split
  · exact ⟨_, rfl⟩
  · rw [readUInt16BE, if_pos (by omega)]
    exact ⟨_, rfl⟩

theorem readEntries_total (version : Nat) (data : List UInt8) {last : Nat} (count start : Nat)
    (previous : List UInt8) (hlast : last ≤ data.length) :
    ∃ result, readEntries version data last count start previous = .ok result := by
  induction count generalizing start previous with
  | zero => exact ⟨_, rfl⟩
  | succ count ih =>
      obtain ⟨result, hresult⟩ := readEntry_total version data start previous hlast
      rw [readEntries, hresult]
      cases result with
      | none => exact ⟨_, rfl⟩
      | some found =>
          obtain ⟨rest, hrest⟩ := ih found.2 found.1
          simp only [hrest]
          exact ⟨_, rfl⟩

theorem skipExtensions_total (data : List UInt8) {last : Nat} (pos : Nat)
    (hlast : last ≤ data.length) : ∃ whole, skipExtensions data last pos = .ok whole := by
  induction hleft : last - pos using Nat.strongRecOn generalizing pos with
  | ind left ih =>
      rw [skipExtensions]
      split
      · split
        · exact ⟨_, rfl⟩
        · simp only
          split
          · exact ⟨_, rfl⟩
          · rw [readUInt32BE, if_pos (by omega)]
            exact ih _ (by omega) _ rfl
      · exact ⟨_, rfl⟩

/-- Every file is read to its end at most. -/
theorem parseGitIndex_total (data : FileBuffer) : ∃ result, parseGitIndex data = .ok result := by
  unfold parseGitIndex
  simp only
  split
  · exact ⟨_, rfl⟩
  · next hlong =>
    have hlength : 32 ≤ data.bytes.length := by
      rw [not_or] at hlong
      unfold SHA1_BYTES at hlong
      omega
    obtain ⟨result, hresult⟩ := readEntries_total
      (BigEndian.value ((data.bytes.drop 4).take 4)) data.bytes
      (BigEndian.value ((data.bytes.drop 8).take 4)) 12 [] (Nat.sub_le _ SHA1_BYTES)
    simp only [readUInt32BE, if_pos (show 4 + 4 ≤ data.bytes.length by omega),
      if_pos (show 8 + 4 ≤ data.bytes.length by omega), bind, Except.bind]
    split
    · exact ⟨_, rfl⟩
    · rw [hresult]
      cases result with
      | none => exact ⟨_, rfl⟩
      | some found =>
          obtain ⟨whole, hwhole⟩ := skipExtensions_total data.bytes found.2
            (Nat.sub_le data.bytes.length SHA1_BYTES)
          simp only [hwhole]
          exact ⟨_, rfl⟩

/-! ## A file that ends inside the entries -/

section

variable {front rest : List UInt8} {pos : Nat}

variable {found : Int × Nat}

theorem le_of_varintMore {value : Int} {byte : UInt8}
    (h : varintMore value byte pos rest = some found) : pos ≤ found.2 := by
  induction rest generalizing value byte pos with
  | nil =>
      rw [varintMore] at h
      split at h
      · cases h
        exact Nat.le_refl _
      · cases h
  | cons next rest ih =>
      rw [varintMore] at h
      split at h
      · cases h
        exact Nat.le_refl _
      · have := ih h
        omega

/-- Bytes that all go on leave the varint to end behind them. -/
theorem lt_of_varintMore {value : Int} {byte : UInt8} (hbyte : ¬ byte.toNat < 128)
    (hfront : ∀ next ∈ front, ¬ next.toNat < 128)
    (h : varintMore value byte pos (front ++ rest) = some found) :
    pos + front.length < found.2 := by
  induction front generalizing value byte pos with
  | nil =>
      cases rest with
      | nil =>
          rw [List.nil_append, varintMore, if_neg hbyte] at h
          cases h
      | cons next rest =>
          rw [List.nil_append, varintMore_next hbyte] at h
          have := le_of_varintMore h
          rw [List.length_nil]
          omega
  | cons next front ih =>
      rw [List.cons_append, varintMore_next hbyte] at h
      have := ih (hfront next List.mem_cons_self)
        (fun other hother => hfront other (List.mem_cons_of_mem _ hother)) h
      rw [List.length_cons]
      omega

theorem lt_of_varint (hfront : ∀ next ∈ front, ¬ next.toNat < 128)
    (hdata : data.drop pos = front ++ rest) (h : varint data pos = some found) :
    pos + front.length < found.2 := by
  rw [varint, hdata] at h
  cases front with
  | nil =>
      cases rest with
      | nil => cases h
      | cons next rest =>
          have := le_of_varintMore h
          rw [List.length_nil]
          omega
  | cons first front =>
      have := lt_of_varintMore (hfront first List.mem_cons_self)
        (fun other hother => hfront other (List.mem_cons_of_mem _ hother)) h
      rw [List.length_cons]
      omega

/-- A zero is not found before the end of bytes that have none. -/
theorem le_of_indexOfZero {nul : Nat} (hfront : 0 ∉ front) (hdata : data.drop pos = front ++ rest)
    (h : indexOfZero data pos = some nul) : pos + front.length ≤ nul := by
  unfold indexOfZero at h
  obtain ⟨offset, hoffset, rfl⟩ := Option.map_eq_some_iff.mp h
  have hnone : front.findIdx? (· == 0) = none := by
    rw [List.findIdx?_eq_none_iff]
    intro byte hbyte
    exact beq_false_of_ne fun heq => hfront (heq ▸ hbyte)
  rw [hdata, List.findIdx?_append, hnone] at hoffset
  obtain ⟨behind, -, rfl⟩ := Option.map_eq_some_iff.mp (by simpa using hoffset)
  omega

end

theorem varintHigh_large (n : Nat) : ∀ byte ∈ varintHigh n, ¬ byte.toNat < 128 := by
  induction n using Nat.strongRecOn with
  | ind n ih =>
      intro byte hbyte
      rw [varintHigh, List.mem_append, List.mem_singleton] at hbyte
      rcases hbyte with hhigh | rfl
      · split at hhigh
        · cases hhigh
        · exact ih _ (by omega) byte hhigh
      · rw [UInt8.toNat_ofNat']
        omega

/-- Every byte of a varint before its last one goes on. -/
theorem encodeVarint_large {front : List UInt8} {n : Nat} (h : front <+: encodeVarint n)
    (hlt : front.length < (encodeVarint n).length) : ∀ byte ∈ front, ¬ byte.toNat < 128 := by
  intro byte hbyte
  rw [encodeVarint, List.length_append, List.length_singleton] at hlt
  rw [encodeVarint] at h
  have hhigh := (List.prefix_of_prefix_length_le h (List.prefix_append _ _) (by omega)).subset hbyte
  split at hhigh
  · cases hhigh
  · exact varintHigh_large _ byte hhigh

section

variable {front : List UInt8}

variable {found : List UInt8 × Nat}

/-- A name that is cut off is not read, or is read up to where its padding would have ended. -/
theorem lt_of_readName (hsmall : data.length < 2 ^ 31) (hlast : last + 8 ≤ data.length)
    (hname : WritesName version previous entry bytes) (hprevious : previous.length ≤ start)
    (hdata : data.drop (start + entry.head.length) = front ++ rest)
    (hfront : start + entry.head.length + front.length = last) (hcut : front <+: bytes)
    (hlt : front.length < bytes.length)
    (h : readName version data last start (start + entry.head.length) previous = some found) :
    last < found.2 := by
  cases hname with
  | padded hversion =>
      rw [readName, if_neg hversion] at h
      cases hnul : indexOfZero data (start + entry.head.length) with
      | none => rw [hnul] at h; cases h
      | some nul =>
          rw [hnul] at h
          simp only at h
          split_ifs at h with hbound
          rw [List.length_append, List.length_replicate] at hlt
          by_cases hinside : front.length ≤ entry.name.length
          · -- the cut is before the zero, which is then looked for behind it
            have hno : 0 ∉ front := fun hmem => entry.name_no_zero
              ((List.prefix_of_prefix_length_le hcut (List.prefix_append _ _) hinside).subset hmem)
            have := le_of_indexOfZero hno hdata hnul
            omega
          · -- the cut is inside the padding
            obtain ⟨padding, rfl⟩ :=
              List.prefix_of_prefix_length_le (List.prefix_append _ _) hcut (by omega)
            have hpadding : padding ≠ [] := by
              rintro rfl
              simp at hinside
            rw [List.prefix_append_right_inj] at hcut
            obtain ⟨zero, padding, rfl⟩ := List.exists_cons_of_ne_nil hpadding
            have hzero : zero = 0 := List.eq_of_mem_replicate (hcut.subset List.mem_cons_self)
            rw [hzero, List.append_assoc, List.cons_append] at hdata
            rw [indexOfZero_eq entry.name_no_zero hdata] at hnul
            have hat := Option.some.inj hnul
            have hnext : (start : Int) + roundUp (nul - start) = start + entry.head.length +
                entry.name.length + (8 - (entry.head.length + entry.name.length) % 8 : Nat) := by
              rw [roundUp, toInt32_eq (by omega) (by omega)]
              omega
            rw [hnext] at h
            rw [← Option.some.inj h]
            dsimp only
            omega
  | compressed hversion strip suffix hstrip hsuffix =>
      have hno : 0 ∉ suffix := fun hmem => entry.name_no_zero (by rw [hsuffix]; simp [hmem])
      rw [readName, if_pos hversion] at h
      cases hvarint : varint data (start + entry.head.length) with
      | none => rw [hvarint] at h; cases h
      | some found' =>
          obtain ⟨stripped, next⟩ := found'
          rw [hvarint] at h
          simp only at h
          split_ifs at h with hlarge
          cases hnul : indexOfZero data next with
          | none => rw [hnul] at h; cases h
          | some nul =>
              rw [hnul] at h
              simp only at h
              split_ifs at h with hbound
              rw [List.append_assoc] at hcut
              simp only [List.length_append, List.length_singleton] at hlt
              by_cases hinside : front.length < (encodeVarint strip).length
              · -- the varint goes on behind the cut
                have hlarge := encodeVarint_large
                  (List.prefix_of_prefix_length_le hcut (List.prefix_append _ _) (by omega)) hinside
                have hbehind := lt_of_varint hlarge hdata hvarint
                have hno : (0 : UInt8) ∉ ([] : List UInt8) := List.not_mem_nil
                have := le_of_indexOfZero hno (List.nil_append _).symm hnul
                rw [List.length_nil] at this
                simp only at hbehind
                omega
              · obtain ⟨cut, rfl⟩ :=
                  List.prefix_of_prefix_length_le (List.prefix_append _ _) hcut (by omega)
                rw [List.prefix_append_right_inj] at hcut
                rw [List.length_append] at hlt hfront
                rw [List.append_assoc] at hdata
                have hread := varint_encode (by omega) hdata
                rw [hread] at hvarint
                cases hvarint
                have hcut' : cut <+: suffix :=
                  List.prefix_of_prefix_length_le hcut (List.prefix_append _ _) (by omega)
                have := le_of_indexOfZero (fun hmem => hno (hcut'.subset hmem))
                  (drop_behind hdata) hnul
                omega

/-- A name that is read begins before the end. -/
theorem pos_lt_of_readName {pos : Nat}
    (h : readName version data last start pos previous = some found) : pos < last := by
  have hno : (0 : UInt8) ∉ ([] : List UInt8) := List.not_mem_nil
  have hzero : ∀ {behind nul : Nat}, indexOfZero data behind = some nul → behind ≤ nul :=
    fun hnul => le_of_indexOfZero hno (List.nil_append _).symm hnul
  unfold readName at h
  split_ifs at h with hversion
  · cases hvarint : varint data pos with
    | none => rw [hvarint] at h; cases h
    | some strip =>
        rw [hvarint] at h
        simp only at h
        split_ifs at h with hstrip
        cases hnul : indexOfZero data strip.2 with
        | none => rw [hnul] at h; cases h
        | some nul =>
            rw [hnul] at h
            simp only at h
            split_ifs at h with hbound
            have hnext : pos + [].length < strip.2 :=
              lt_of_varint (fun _ hmem => absurd hmem List.not_mem_nil) (List.nil_append _).symm
                hvarint
            have := hzero hnul
            rw [List.length_nil] at hnext
            omega
  · cases hnul : indexOfZero data pos with
    | none => rw [hnul] at h; cases h
    | some nul =>
        rw [hnul] at h
        simp only at h
        split_ifs at h with hbound
        have := hzero hnul
        omega

/-- An entry that is cut off is not read, or is read up to where its padding would have ended. -/
theorem lt_of_readEntry (hsmall : data.length < 2 ^ 31) (hlast : last + 8 ≤ data.length)
    (hname : WritesName version previous entry bytes) (hprevious : previous.length ≤ start)
    (hdata : data.drop start = front ++ rest) (hfront : start + front.length = last)
    (hcut : front <+: entry.head ++ bytes) (hlt : front.length < (entry.head ++ bytes).length)
    (h : readEntry version data last start previous = .ok (some found)) : last < found.2 := by
  have hhead := entry.length_head
  unfold readEntry at h
  simp only at h
  split at h
  · cases h
  · next hbound =>
    unfold STAT_BYTES SHA1_BYTES at hbound
    -- the flags are before the cut
    obtain ⟨more, hmore⟩ : entry.stat ++ entry.object ++ BigEndian.bytes 2 entry.flags <+: front :=
      List.prefix_of_prefix_length_le
        (by rw [Entry.head, List.append_assoc _ entry.extendedFlags]; exact List.prefix_append _ _)
        hcut (by
          rw [List.length_append, List.length_append, entry.stat_length, entry.object_length,
            BigEndian.length_bytes]
          unfold STAT_BYTES SHA1_BYTES
          omega)
    have hflags : data.drop (start + STAT_BYTES + SHA1_BYTES) =
        BigEndian.bytes 2 entry.flags ++ (more ++ rest) := by
      have hfields : data.drop start = (entry.stat ++ entry.object) ++
          (BigEndian.bytes 2 entry.flags ++ (more ++ rest)) := by
        rw [hdata, ← hmore]
        simp only [List.append_assoc]
      have := drop_behind hfields
      rwa [List.length_append, entry.stat_length, entry.object_length, ← Nat.add_assoc] at this
    have hpos : (if entry.extended.isSome = true then start + STAT_BYTES + SHA1_BYTES + 2 + 2
        else start + STAT_BYTES + SHA1_BYTES + 2) = start + entry.head.length := by
      rw [hhead]
      unfold STAT_BYTES SHA1_BYTES
      split_ifs <;> omega
    rw [readUInt16BE_eq hflags entry.flags_lt] at h
    simp only [Except.map, entry.flags_extended, hpos, Except.ok.injEq] at h
    split at h
    · cases h
    · split at h
      · cases h
      · next name next hread =>
        split at h
        · cases h
        · cases h
          by_cases hbegun : front.length < entry.head.length
          · have := pos_lt_of_readName hread
            omega
          · obtain ⟨cut, rfl⟩ :=
              List.prefix_of_prefix_length_le (List.prefix_append _ _) hcut (by omega)
            rw [List.prefix_append_right_inj] at hcut
            rw [List.append_assoc] at hdata
            rw [List.length_append] at hfront hlt
            rw [List.length_append] at hlt
            exact lt_of_readName hsmall hlast hname hprevious (drop_behind hdata) (by omega) hcut
              (by omega) hread

/-- No entry begins behind the end. -/
theorem lt_of_readEntries_behind {count : Nat} {found : List (List UInt8) × Nat}
    (hbehind : last < start)
    (h : readEntries version data last count start previous = .ok (some found)) :
    last < found.2 := by
  cases count with
  | zero =>
      cases h
      exact hbehind
  | succ count =>
      have hnone : readEntry version data last start previous = .ok none := by
        unfold readEntry
        simp only
        rw [if_pos (by omega)]
      rw [readEntries, hnone] at h
      cases h

/-- Entries that are cut off are not read, or are read up to behind the cut. -/
theorem lt_of_readEntries {entries : List Entry} {body : List UInt8}
    {found : List (List UInt8) × Nat} (hsmall : data.length < 2 ^ 31)
    (hlast : last + 8 ≤ data.length) (hbody : WritesEntries version previous entries body)
    (hprevious : previous.length ≤ start) (hdata : data.drop start = front ++ rest)
    (hfront : start + front.length = last) (hcut : front <+: body)
    (hlt : front.length < body.length)
    (h : readEntries version data last entries.length start previous = .ok (some found)) :
    last < found.2 := by
  induction hbody generalizing start front found with
  | nil => exact absurd hlt (Nat.not_lt_zero _)
  | @cons previous bytes more entry entries hextended hname hmore ih =>
      rw [List.length_cons, readEntries] at h
      by_cases hwhole : (entry.head ++ bytes).length ≤ front.length
      · -- the entry is before the cut
        obtain ⟨cut, rfl⟩ :=
          List.prefix_of_prefix_length_le (List.prefix_append _ _) hcut hwhole
        rw [List.prefix_append_right_inj] at hcut
        rw [List.append_assoc] at hdata
        have hnext := drop_behind hdata
        have hlength := length_name_le hname
        simp only [List.length_append] at hfront hlt hnext
        rw [readEntry_eq hsmall (by omega) hextended hname hprevious hdata (by omega)] at h
        simp only at h
        rw [← Nat.add_assoc] at hnext
        cases hrest : readEntries version data last entries.length
            (start + entry.head.length + bytes.length) entry.name with
        | error => rw [hrest] at h; cases h
        | ok others => cases others with
          | none => rw [hrest] at h; cases h
          | some others =>
              rw [hrest] at h
              cases h
              show last < others.2
              exact ih (by omega) hnext (by omega) hcut (by omega) hrest
      · have hcut' : front <+: entry.head ++ bytes :=
          List.prefix_of_prefix_length_le hcut (List.prefix_append _ _) (by omega)
        cases hentry : readEntry version data last start previous with
        | error => rw [hentry] at h; cases h
        | ok read => cases read with
          | none => rw [hentry] at h; cases h
          | some read =>
              have hbehind := lt_of_readEntry hsmall hlast hname hprevious hdata hfront hcut'
                (by omega) hentry
              rw [hentry] at h
              cases hrest : readEntries version data last entries.length read.2 read.1 with
              | error => simp only [hrest] at h; cases h
              | ok others => cases others with
                | none => simp only [hrest] at h; cases h
                | some others =>
                    simp only [hrest] at h
                    cases h
                    show last < others.2
                    exact lt_of_readEntries_behind hbehind hrest

end

namespace Index

/-- The bytes of `data` before its last twenty, where the checksum is looked for, are less than the
header and the entries. -/
def EndsInside (index : Index) (body data : List UInt8) : Prop :=
  data.take (data.length - SHA1_BYTES) <+: index.header ++ body ∧
    data.length - SHA1_BYTES < (index.header ++ body).length

variable {index : Index} {body : List UInt8}

/-- A file that is cut off before its entries end. -/
theorem endsInside_take {n : Nat} (h : n < (index.header ++ body).length) :
    index.EndsInside body ((index.file body).take n) := by
  have hcut : (index.file body).take n = (index.header ++ body).take n := by
    rw [file, List.append_assoc (index.header ++ body), List.take_append_of_le_length (by omega)]
  rw [hcut]
  constructor
  · exact (List.take_prefix _ _).trans (List.take_prefix _ _)
  · rw [List.length_take]
    omega

theorem skipExtensions_behind {data : List UInt8} {last pos : Nat} (h : last < pos) :
    skipExtensions data last pos = .ok false := by
  rw [skipExtensions, if_neg (by omega), beq_false_of_ne (by omega)]

/-- A file that ends inside the entries is none. -/
theorem parse_endsInside {data : FileBuffer} (hbody : index.Body body)
    (h : index.EndsInside body data.bytes) : parseGitIndex data = .ok none := by
  obtain ⟨hcut, hlt⟩ := h
  have hheader := index.length_header
  by_cases hshort : data.bytes.length < 12 + SHA1_BYTES
  · unfold parseGitIndex
    simp only
    rw [if_pos (Or.inl hshort)]
  have hsha : SHA1_BYTES = 20 := rfl
  have hlength : (data.bytes.take (data.bytes.length - SHA1_BYTES)).length =
      data.bytes.length - SHA1_BYTES := by
    rw [List.length_take]
    omega
  have hdata := List.take_append_drop (data.bytes.length - SHA1_BYTES) data.bytes
  -- the whole header is before the cut
  obtain ⟨front, hfront⟩ : index.header <+: data.bytes.take (data.bytes.length - SHA1_BYTES) :=
    List.prefix_of_prefix_length_le (List.prefix_append _ _) hcut (by omega)
  rw [← hfront, List.prefix_append_right_inj] at hcut
  rw [← hfront, List.length_append] at hlength
  rw [← hfront, header] at hdata
  simp only [List.append_assoc] at hdata
  generalize data.bytes.drop (data.bytes.length - SHA1_BYTES) = checksum at hdata
  have hversion : data.bytes.drop 4 = BigEndian.bytes 4 index.version ++
      (BigEndian.bytes 4 index.entries.length ++ (front ++ checksum)) := by
    rw [← hdata]
    exact List.drop_left' rfl
  have hcount : data.bytes.drop 8 =
      BigEndian.bytes 4 index.entries.length ++ (front ++ checksum) := by
    have := drop_behind hversion
    rwa [BigEndian.length_bytes] at this
  have hentries : data.bytes.drop 12 = front ++ checksum := by
    have := drop_behind hcount
    rwa [BigEndian.length_bytes] at this
  have hknown := index.version_known
  obtain ⟨read, hread⟩ := readEntries_total index.version data.bytes index.entries.length 12 []
    (Nat.sub_le data.bytes.length SHA1_BYTES)
  unfold parseGitIndex
  simp only [bind, Except.bind, readUInt32BE_eq hversion index.version_lt,
    readUInt32BE_eq hcount index.entries_length, hread]
  split_ifs with hguard
  · rfl
  · rfl
  · cases read with
    | none => rfl
    | some found =>
        rw [List.length_append] at hlt
        have hbehind := lt_of_readEntries data.small (by omega) hbody (Nat.zero_le 12) hentries
          (by omega) hcut (by omega) hread
        simp only [skipExtensions_behind hbehind]
        rfl

end Index

/-- Every file is read to its end at most.  Of an index the names of its entries are read, in their
order and each once, or null where an extension of it must not be passed over; of a file that ends
inside the entries of an index null is read. -/
theorem parses_index :
    (∀ data : FileBuffer, ∃ result, parseGitIndex data = .ok result) ∧
    ∀ (index : Index) (body : List UInt8) (data : FileBuffer), index.Body body →
      (data.bytes = index.file body → parseGitIndex data =
        .ok (if index.extensions.all Extension.isOptional then
          some (index.entries.map fun entry => Utf8.decode entry.name).eraseDups else none)) ∧
      (index.EndsInside body data.bytes → parseGitIndex data = .ok none) ∧
      (∀ n < (index.header ++ body).length,
        data.bytes = (index.file body).take n → parseGitIndex data = .ok none) := by
  constructor
  · exact parseGitIndex_total
  · intro index body data hbody
    refine ⟨index.parse_file hbody, index.parse_endsInside hbody, ?_⟩
    intro n hn h
    apply Index.parse_endsInside hbody
    rw [h]
    exact Index.endsInside_take hn

/-- An entry of a name, its other fields empty. -/
def plainEntry (name : List UInt8) (h : name ≠ [] ∧ 0 ∉ name) : Entry where
  stat := List.replicate 40 0
  stat_length := rfl
  object := List.replicate 20 0
  object_length := rfl
  assumeValid := false
  stage := ⟨0, by decide⟩
  extended := none
  name := name
  name_ne_nil := h.1
  name_no_zero := h.2

/-- `a/b` and `a/c` -/
def twoPaths : Index where
  version := 4
  version_known := by decide
  entries := [plainEntry [97, 47, 98] (by decide), plainEntry [97, 47, 99] (by decide)]
  entries_length := by decide
  extensions := [⟨84, [82, 69, 69], rfl, [0], by decide⟩]
  checksum := List.replicate 20 0
  checksum_length := rfl

/-- The second name is the first without its last byte, and `c`. -/
def twoPathsBody : List UInt8 :=
  (plainEntry [97, 47, 98] (by decide)).head ++ (encodeVarint 0 ++ [97, 47, 98] ++ [0]) ++
    ((plainEntry [97, 47, 99] (by decide)).head ++ (encodeVarint 1 ++ [99] ++ [0]) ++ [])

theorem twoPaths_body : twoPaths.Body twoPathsBody :=
  .cons (fun _ => rfl) (.compressed rfl 0 [97, 47, 98] (by decide) rfl)
    (.cons (fun _ => rfl) (.compressed rfl 1 [99] (by decide) rfl) .nil)

theorem length_twoPathsBody : twoPathsBody.length = 132 := by
  simp [twoPathsBody, Entry.length_head, encodeVarint, plainEntry]

def twoPathsFile : FileBuffer where
  bytes := twoPaths.file twoPathsBody
  small := by
    rw [Index.length_file, length_twoPathsBody]
    decide

/-- A cut inside the second entry, and the whole file. -/
theorem parses_index_twoPaths :
    parseGitIndex twoPathsFile = .ok (some [['a', '/', 'b'], ['a', '/', 'c']]) ∧
    parseGitIndex ⟨(twoPaths.file twoPathsBody).take 90, by rw [List.length_take]; omega⟩ =
      .ok none := by
  obtain ⟨hwhole, -⟩ := parses_index.2 twoPaths twoPathsBody twoPathsFile twoPaths_body
  obtain ⟨-, -, hcut⟩ := parses_index.2 twoPaths twoPathsBody
    ⟨(twoPaths.file twoPathsBody).take 90, by rw [List.length_take]; omega⟩ twoPaths_body
  constructor
  · rw [hwhole rfl]
    decide
  · apply hcut 90 _ rfl
    rw [List.length_append, Index.length_header, length_twoPathsBody]
    decide

end Stim.GitIndex
