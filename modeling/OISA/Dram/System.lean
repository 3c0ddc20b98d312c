import Mathlib.Tactic

/-!
# DRAM addresses

Model of `dram/System.cc` and `dram/Address.cc`: the geometry of the controllers, the widths
of the address components, the accepted range and the decoding. An `int` product wraps to 32
bits.
-/

namespace OISA.Dram

/-- What `Controller::ParseConfiguration` reads of the size of a controller, with its checks. -/
structure Geometry where
  num_channels : ℕ
  num_ranks : ℕ
  num_banks : ℕ
  num_rows : ℕ
  num_columns : ℕ
  valid : ∀ n ∈ [num_channels, num_ranks, num_banks, num_rows, num_columns],
    0 < n ∧ n < 2 ^ 31

def shifts : ℕ → ℕ → ℕ
  | 0, _ => 0
  | fuel + 1, num => if num / 2 = 0 then 0 else shifts fuel (num / 2) + 1

def Log2 (num : ℕ) : ℕ := shifts 32 num

structure AddressSizes where
  physical_size : ℕ
  logical_size : ℕ
  rank_size : ℕ
  bank_size : ℕ
  row_size : ℕ
  column_size : ℕ
  deriving DecidableEq, Repr

def GenerateAddressSizes (controllers : List Geometry) : AddressSizes where
  physical_size := Log2 controllers.length
  logical_size := controllers.foldl (fun size c => max size (Log2 c.num_channels)) 0
  rank_size := controllers.foldl (fun size c => max size (Log2 c.num_ranks)) 0
  bank_size := controllers.foldl (fun size c => max size (Log2 c.num_banks)) 0
  row_size := controllers.foldl (fun size c => max size (Log2 c.num_rows)) 0
  column_size := controllers.foldl (fun size c => max size (Log2 c.num_columns)) 0

/-- The capacity: the channels and columns are the largest of all controllers, the ranks,
banks and rows those of the last controller or the width of the component. -/
def getCapacity (controllers : List Geometry) : ℤ :=
  let sizes := GenerateAddressSizes controllers
  let num_channels := controllers.foldl (fun num c => max num c.num_channels) 1
  let num_ranks := controllers.foldl (fun _ c => max sizes.rank_size c.num_ranks) 1
  let num_banks := controllers.foldl (fun _ c => max sizes.bank_size c.num_banks) 1
  let num_rows := controllers.foldl (fun _ c => max sizes.row_size c.num_rows) 1
  let num_columns := controllers.foldl (fun _ c => max sizes.column_size c.num_columns) 1
  Int.bmod (controllers.length * num_channels * num_ranks * num_banks * num_rows * num_columns)
    (2 ^ 32)

structure Address where
  physical : ℕ
  logical : ℕ
  rank : ℕ
  bank : ℕ
  row : ℕ
  column : ℕ
  deriving DecidableEq, Repr

/-- `Address::DecodeAddress`: physical:logical:rank:bank:row:column from the highest bits. -/
def DecodeAddress (sizes : AddressSizes) (encoded : ℤ) : Address :=
  let decoding := encoded
  let column := (decoding % 2 ^ sizes.column_size).toNat
  let decoding := decoding / 2 ^ sizes.column_size
  let row := (decoding % 2 ^ sizes.row_size).toNat
  let decoding := decoding / 2 ^ sizes.row_size
  let bank := (decoding % 2 ^ sizes.bank_size).toNat
  let decoding := decoding / 2 ^ sizes.bank_size
  let rank := (decoding % 2 ^ sizes.rank_size).toNat
  let decoding := decoding / 2 ^ sizes.rank_size
  let logical := (decoding % 2 ^ sizes.logical_size).toNat
  let decoding := decoding / 2 ^ sizes.logical_size
  let physical := (decoding % 2 ^ sizes.physical_size).toNat
  { physical, logical, rank, bank, row, column }

inductive RequestType
  | RequestInvalid
  | RequestRead
  | RequestWrite
  deriving DecidableEq, Repr

structure Request where
  type : RequestType
  encoded : ℤ
  address : Address
  deriving DecidableEq, Repr

/-- A request with `setEncodedAddress` and `setType`. -/
def Request.new (sizes : AddressSizes) (type : RequestType) (encoded : ℤ) : Request :=
  { type, encoded, address := DecodeAddress sizes encoded }

/-- The request that `Read` and `Write` make for a valid address. -/
def request (controllers : List Geometry) (type : RequestType) (address : ℤ) : Option Request :=
  if address < 0 ∨ address > getCapacity controllers then none
  else some (Request.new (GenerateAddressSizes controllers) type address)

def Read (controllers : List Geometry) (address : ℤ) : Option Request :=
  request controllers .RequestRead address

def Write (controllers : List Geometry) (address : ℤ) : Option Request :=
  request controllers .RequestWrite address

def Located (controllers : List Geometry) (a : Address) : Prop :=
  ∃ c, controllers[a.physical]? = some c ∧ a.logical < c.num_channels ∧ a.rank < c.num_ranks ∧
    a.bank < c.num_banks ∧ a.row < c.num_rows ∧ a.column < c.num_columns

end OISA.Dram
