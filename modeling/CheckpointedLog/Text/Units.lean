namespace CheckpointedLog.Text

def unitsOf (c : Char) : List UInt16 :=
  let n := c.toNat
  if n < 0x10000 then [UInt16.ofNat n]
  else [UInt16.ofNat (0xD800 + (n - 0x10000) / 0x400), UInt16.ofNat (0xDC00 + (n - 0x10000) % 0x400)]

def units16 (s : String) : List UInt16 := s.toList.flatMap unitsOf

end CheckpointedLog.Text
