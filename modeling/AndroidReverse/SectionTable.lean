import AndroidReverse.ExportSymbols

/-!
# The section table of an ELF file

The two hooks of the GOT of a library find it by the section table of its file: the header of
the file says where the headers of the sections stand and which one is that of the names. An
`ElfFile` is a file in which what these headers say is true.
-/

namespace SectionTable

open ExportUtil

/-- What is used of `Elf32_Shdr`. -/
structure Shdr where
  sh_name : ℕ
  sh_type : ℕ
  sh_addr : ℕ
  sh_offset : ℕ
  sh_size : ℕ
deriving DecidableEq

def Shdr.ofBytes (b : List Byte) : Shdr :=
  ⟨number b 0 4, number b 4 4, number b 12 4, number b 16 4, number b 20 4⟩

/-- `sizeof(Elf32_Shdr)`. -/
def Shdr.sizeof : ℕ := 40

/-- `SHT_PROGBITS`. -/
def SHT_PROGBITS : ℕ := 1

/-- `".got"` -/
def gotName : List Byte := [0x2E#8, 0x67#8, 0x6F#8, 0x74#8]

/-- `".got.plt"` -/
def gotPltName : List Byte := gotName ++ [0x2E#8, 0x70#8, 0x6C#8, 0x74#8]

/-- Whether `strcmp` finds a string of a table equal to another one. The string ends in the
table. -/
def strcmp (tab : List Byte) (idx : ℕ) (name : List Byte) : Bool :=
  (tab.drop idx).take (name.length + 1) = name ++ [0#8]

/-! ## What a file says -/

section File

variable (data : List Byte)

/-- The header of the file. -/
def ehdr : Ehdr := Ehdr.ofBytes (data.take Ehdr.size)

/-- Where the header of a section stands. -/
def headerAt (k : ℕ) : ℕ := (ehdr data).shoff + Shdr.sizeof * k

/-- The header of a section. -/
def header (k : ℕ) : Shdr := Shdr.ofBytes ((data.drop (headerAt data k)).take Shdr.sizeof)

/-- The names of the sections. -/
def names : List Byte :=
  (data.drop (header data (ehdr data).shstrndx).sh_offset).take
    (header data (ehdr data).shstrndx).sh_size

/-- Whether a section has a name. -/
def named (k : ℕ) (name : List Byte) : Bool := strcmp (names data) (header data k).sh_name name

/-- **A valid section table.** -/
structure Valid : Prop where
  /-- The file can be opened where an offset has 32 bits. -/
  length_lt : data.length < 2 ^ 31
  length_ge : Ehdr.size ≤ data.length
  shentsize : (ehdr data).shentsize = Shdr.sizeof
  /-- The headers are in the file. -/
  headers : headerAt data (ehdr data).shnum ≤ data.length
  shstrndx : (ehdr data).shstrndx < (ehdr data).shnum
  /-- The names are in the file. -/
  strings : (header data (ehdr data).shstrndx).sh_offset
    + (header data (ehdr data).shstrndx).sh_size ≤ data.length
  /-- Every name ends. -/
  terminated : ∀ k < (ehdr data).shnum, 0#8 ∈ (names data).drop (header data k).sh_name
  /-- What a section has in the file stands behind the header of the file. -/
  contents : ∀ k < (ehdr data).shnum, (header data k).sh_type = SHT_PROGBITS →
    Ehdr.size ≤ (header data k).sh_offset
      ∧ (header data k).sh_offset + (header data k).sh_size ≤ data.length
  /-- No section is as large as the address space. -/
  size_le : ∀ k < (ehdr data).shnum, (header data k).sh_size ≤ 2 ^ 32 - 4
  /-- A GOT is a section with contents. -/
  got_type : ∀ k < (ehdr data).shnum,
    (named data k gotPltName || named data k gotName) = true →
      (header data k).sh_type = SHT_PROGBITS

end File

/-- **An ELF file** with a valid section table. -/
structure ElfFile where
  data : List Byte
  valid : Valid data

/-! ## Reading the headers -/

/-- A variable after a `read` or an `fread` that may stop before its end. -/
def fill (old bytes : List Byte) : List Byte := bytes ++ old.drop bytes.length

/-- A number in the bytes in front of others. -/
theorem number_append {b rest : List Byte} {off n : ℕ} (h : off + n ≤ b.length) :
    number (b ++ rest) off n = number b off n := by
  have htake : ((b ++ rest).drop off).take n = (b.drop off).take n := by
    rw [List.drop_append_of_le_length (by omega), List.take_append_of_le_length]
    rw [List.length_drop]
    omega
  rw [number, number, htake]

theorem ofBytes_append {b rest : List Byte} (h : Shdr.sizeof ≤ b.length) :
    Shdr.ofBytes (b ++ rest) = Shdr.ofBytes b := by
  unfold Shdr.sizeof at h
  simp only [Shdr.ofBytes]
  rw [number_append (by omega), number_append (by omega), number_append (by omega),
    number_append (by omega), number_append (by omega)]

theorem headerAt_succ (data : List Byte) (k : ℕ) :
    headerAt data (k + 1) = headerAt data k + Shdr.sizeof := by
  rw [headerAt, headerAt, Nat.mul_succ, Nat.add_assoc]

theorem headerAt_injective (data : List Byte) : Function.Injective (headerAt data) := by
  intro k k' h
  exact Nat.eq_of_mul_eq_mul_left (show 0 < Shdr.sizeof by decide) (Nat.add_left_cancel h)

theorem ehdr_append {b rest : List Byte} (h : Ehdr.size ≤ b.length) :
    Ehdr.ofBytes (b ++ rest) = Ehdr.ofBytes b := by
  unfold Ehdr.size at h
  simp only [Ehdr.ofBytes]
  rw [number_append (by omega), number_append (by omega), number_append (by omega),
    number_append (by omega), List.take_append_of_le_length (by omega)]

section Headers

variable {data : List Byte} (hv : Valid data) {k : ℕ}
include hv

theorem headerAt_le (hk : k < (ehdr data).shnum) :
    headerAt data k + Shdr.sizeof ≤ data.length := by
  have h := hv.headers
  unfold headerAt at h ⊢
  have hmul := Nat.mul_le_mul_left Shdr.sizeof (Nat.succ_le_of_lt hk)
  rw [Nat.mul_succ] at hmul
  omega

/-- A header is in the file as a whole. -/
theorem length_headerBytes (hk : k < (ehdr data).shnum) :
    ((data.drop (headerAt data k)).take Shdr.sizeof).length = Shdr.sizeof := by
  have h := headerAt_le hv hk
  rw [List.length_take, List.length_drop]
  omega

/-- What a variable holds after a header has been read into it. -/
theorem ofBytes_fill (old : List Byte) (hk : k < (ehdr data).shnum) :
    Shdr.ofBytes (fill old ((data.drop (headerAt data k)).take Shdr.sizeof)) = header data k :=
  ofBytes_append (length_headerBytes hv hk).ge

/-- **The header of the file is read.** -/
theorem read_ehdr : Fd.read ⟨data, 0⟩ Ehdr.size
    = ((Ehdr.size : ℤ), data.take Ehdr.size, ⟨data, Ehdr.size⟩) := by
  have hmin : min Ehdr.size Fd.maxCount = Ehdr.size := by decide
  have hlen : (data.take Ehdr.size).length = Ehdr.size := by
    rw [List.length_take, min_eq_left hv.length_ge]
  rw [Fd.read, if_pos (by decide), hmin]
  dsimp only
  rw [List.drop_zero, hlen, Nat.zero_add]

/-- **The names are read**, where one `read` is enough. -/
theorem read_names (hn : (header data (ehdr data).shstrndx).sh_size ≤ Fd.maxCount) :
    Fd.read ⟨data, (header data (ehdr data).shstrndx).sh_offset⟩
        (header data (ehdr data).shstrndx).sh_size
      = (((names data).length : ℤ), names data,
        ⟨data, (header data (ehdr data).shstrndx).sh_offset + (names data).length⟩) := by
  have h := hv.strings
  have hlt := hv.length_lt
  rw [Fd.read, if_pos (by omega), min_eq_left hn]
  rfl

/-- **Reading a header.** -/
theorem read_header (hk : k < (ehdr data).shnum) :
    Fd.read ⟨data, headerAt data k⟩ Shdr.sizeof
      = ((Shdr.sizeof : ℤ), (data.drop (headerAt data k)).take Shdr.sizeof,
        ⟨data, headerAt data (k + 1)⟩) := by
  have hmin : min Shdr.sizeof Fd.maxCount = Shdr.sizeof := by decide
  rw [Fd.read, if_pos (by decide), hmin, headerAt_succ]
  dsimp only
  rw [length_headerBytes hv hk]

end Headers

/-! ## A file with two sections of a GOT -/

/-- The four bytes of a number. -/
def le32 (n : ℕ) : List Byte := (List.range 4).map fun k => BitVec.ofNat 8 (n / 256 ^ k)

/-- A header of a section. -/
def Shdr.toBytes (h : Shdr) : List Byte :=
  le32 h.sh_name ++ le32 h.sh_type ++ le32 0 ++ le32 h.sh_addr ++ le32 h.sh_offset ++ le32 h.sh_size
    ++ List.replicate 16 0#8

/-- A header of a file with some sections behind it, the last of them the names. -/
def sampleHeader (shnum : ℕ) : List Byte :=
  List.replicate 32 0#8 ++ le32 52 ++ List.replicate 10 0#8
    ++ [40#8, 0#8, BitVec.ofNat 8 shnum, 0#8, BitVec.ofNat 8 (shnum - 1), 0#8]

/-- `.got` with one word, `.got.plt` with one, and the names. -/
def sampleData : List Byte :=
  sampleHeader 4 ++ Shdr.toBytes ⟨0, 0, 0, 0, 0⟩ ++ Shdr.toBytes ⟨1, 1, 0x1000, 228, 4⟩
    ++ Shdr.toBytes ⟨6, 1, 0x1004, 232, 4⟩ ++ Shdr.toBytes ⟨0, 3, 0, 212, 15⟩
    ++ ([0#8] ++ gotName ++ [0#8] ++ gotPltName ++ [0#8]) ++ List.replicate 9 0#8

set_option maxRecDepth 8000 in
theorem ehdr_sampleData : (ehdr sampleData).shoff = 52 ∧ (ehdr sampleData).shentsize = 40
    ∧ (ehdr sampleData).shnum = 4 ∧ (ehdr sampleData).shstrndx = 3 := by
  decide

set_option maxRecDepth 8000 in
theorem header_sampleData : header sampleData 0 = ⟨0, 0, 0, 0, 0⟩
    ∧ header sampleData 1 = ⟨1, 1, 0x1000, 228, 4⟩ ∧ header sampleData 2 = ⟨6, 1, 0x1004, 232, 4⟩
    ∧ header sampleData 3 = ⟨0, 3, 0, 212, 15⟩ := by
  decide

set_option maxRecDepth 8000 in
theorem names_sampleData :
    names sampleData = [0#8] ++ gotName ++ [0#8] ++ gotPltName ++ [0#8] := by
  rw [names, ehdr_sampleData.2.2.2, header_sampleData.2.2.2]
  decide

/-- The sections that are there. -/
theorem forall_lt_sampleData {P : ℕ → Shdr → Prop} (h0 : P 0 ⟨0, 0, 0, 0, 0⟩)
    (h1 : P 1 ⟨1, 1, 0x1000, 228, 4⟩) (h2 : P 2 ⟨6, 1, 0x1004, 232, 4⟩)
    (h3 : P 3 ⟨0, 3, 0, 212, 15⟩) : ∀ k < (ehdr sampleData).shnum, P k (header sampleData k) := by
  obtain ⟨e0, e1, e2, e3⟩ := header_sampleData
  rw [ehdr_sampleData.2.2.1]
  intro k hk
  match k, hk with
  | 0, _ => exact e0 ▸ h0
  | 1, _ => exact e1 ▸ h1
  | 2, _ => exact e2 ▸ h2
  | 3, _ => exact e3 ▸ h3

set_option maxRecDepth 8000 in
theorem valid_sampleData : Valid sampleData where
  length_lt := by decide
  length_ge := by decide
  shentsize := ehdr_sampleData.2.1
  headers := by rw [headerAt, ehdr_sampleData.1, ehdr_sampleData.2.2.1]; decide
  shstrndx := by rw [ehdr_sampleData.2.2.1, ehdr_sampleData.2.2.2]; decide
  strings := by rw [ehdr_sampleData.2.2.2, header_sampleData.2.2.2]; decide
  terminated := by
    rw [names_sampleData]
    exact @forall_lt_sampleData (fun _ h => 0#8 ∈ List.drop h.sh_name _)
      (by decide) (by decide) (by decide) (by decide)
  contents := @forall_lt_sampleData (fun _ h => h.sh_type = SHT_PROGBITS →
    _ ≤ h.sh_offset ∧ h.sh_offset + h.sh_size ≤ _)
    (by decide) (by decide) (by decide) (by decide)
  size_le := @forall_lt_sampleData (fun _ h => h.sh_size ≤ 2 ^ 32 - 4)
    (by decide) (by decide) (by decide) (by decide)
  got_type := by
    unfold named
    rw [names_sampleData]
    exact @forall_lt_sampleData (fun _ h => (strcmp _ h.sh_name _ || strcmp _ h.sh_name _) = true →
      h.sh_type = SHT_PROGBITS) (by decide) (by decide) (by decide) (by decide)

/-- The file with them. -/
def sampleFile : ElfFile := ⟨sampleData, valid_sampleData⟩

end SectionTable
