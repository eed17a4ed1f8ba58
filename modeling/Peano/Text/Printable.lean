import Peano.Text.Ranges
namespace Peano.Text

/-- Code points of the categories L, M, N, P and S, with the space, in ascending ranges. -/
def printableRanges : List (Nat × Nat) := rangesOf [
  "0:20-7E A1-AC AE-3:77 7A-7F 84-8A 8C 8E-A1 A3-5:2F 31-56 59-8A 8D-8F 91-C7 D0-EA EF-F4 6:06-1B 1D-DC DE-7:0D",
  "7:10-4A 4D-B1 C0-FA FD-8:2D 30-3E 40-5B 5E 60-6A 70-8F 97-E1 E3-9:83 85-8C 8F-90 93-A8 AA-B0 B2 B6-B9 BC-C4",
  "9:C7-C8 CB-CE D7 DC-DD DF-E3 E6-FE A:01-03 05-0A 0F-10 13-28 2A-30 32-33 35-36 38-39 3C 3E-42 47-48 4B-4D 51",
  "A:59-5C 5E 66-76 81-83 85-8D 8F-91 93-A8 AA-B0 B2-B3 B5-B9 BC-C5 C7-C9 CB-CD D0 E0-E3 E6-F1 F9-FF B:01-03",
  "B:05-0C 0F-10 13-28 2A-30 32-33 35-39 3C-44 47-48 4B-4D 55-57 5C-5D 5F-63 66-77 82-83 85-8A 8E-90 92-95",
  "B:99-9A 9C 9E-9F A3-A4 A8-AA AE-B9 BE-C2 C6-C8 CA-CD D0 D7 E6-FA C:00-0C 0E-10 12-28 2A-39 3C-44 46-48 4A-4D",
  "C:55-56 58-5A 5C-5D 60-63 66-6F 77-8C 8E-90 92-A8 AA-B3 B5-B9 BC-C4 C6-C8 CA-CD D5-D6 DC-DE E0-E3 E6-EF",
  "C:F1-F3 D:00-0C 0E-10 12-44 46-48 4A-4F 54-63 66-7F 81-83 85-96 9A-B1 B3-BB BD C0-C6 CA CF-D4 D6 D8-DF E6-EF",
  "D:F2-F4 E:01-3A 3F-5B 81-82 84 86-8A 8C-A3 A5 A7-BD C0-C4 C6 C8-CE D0-D9 DC-DF F:00-47 49-6C 71-97 99-BC",
  "F:BE-CC CE-DA 10:00-C5 C7 CD D0-12:48 4A-4D 50-56 58 5A-5D 60-88 8A-8D 90-B0 B2-B5 B8-BE C0 C2-C5 C8-D6",
  "12:D8-13:10 12-15 18-5A 5D-7C 80-99 A0-F5 F8-FD 14:00-16:7F 81-9C A0-F8 17:00-15 1F-36 40-53 60-6C 6E-70",
  "17:72-73 80-DD E0-E9 F0-F9 18:00-0D 0F-19 20-78 80-AA B0-F5 19:00-1E 20-2B 30-3B 40 44-6D 70-74 80-AB B0-C9",
  "19:D0-DA DE-1A:1B 1E-5E 60-7C 7F-89 90-99 A0-AD B0-DD E0-EB 1B:00-4C 4E-F3 FC-1C:37 3B-49 4D-8A 90-BA BD-C7",
  "1C:D0-FA 1D:00-1F:15 18-1D 20-45 48-4D 50-57 59 5B 5D 5F-7D 80-B4 B6-C4 C6-D3 D6-DB DD-EF F2-F4 F6-FE",
  "20:10-27 30-5E 70-71 74-8E 90-9C A0-C1 D0-F0 21:00-8B 90-24:29 40-4A 60-2B:73 76-2C:F3 F9-2D:25 27 2D 30-67",
  "2D:6F-70 7F-96 A0-A6 A8-AE B0-B6 B8-BE C0-C6 C8-CE D0-D6 D8-DE E0-2E:5D 80-99 9B-F3 2F:00-D5 F0-FF 30:01-3F",
  "30:41-96 99-FF 31:05-2F 31-8E 90-E5 EF-32:1E 20-A4:8C 90-C6 D0-A6:2B 40-F7 A7:00-DC F1-A8:2C 30-39 40-77",
  "A8:80-C5 CE-D9 E0-A9:53 5F-7C 80-CD CF-D9 DE-FE AA:00-36 40-4D 50-59 5C-C2 DB-F6 AB:01-06 09-0E 11-16 20-26",
  "AB:28-2E 30-6B 70-ED F0-F9 AC:00-D7:A3 B0-C6 CB-FB F9:00-FA:6D 70-D9 FB:00-06 13-17 1D-36 38-3C 3E 40-41",
  "FB:43-44 46-FD:CF F0-FE:19 20-52 54-66 68-6B 70-74 76-FC FF:01-BE C2-C7 CA-CF D2-D7 DA-DC E0-E6 E8-EE FC-FD",
  "100:00-0B 0D-26 28-3A 3C-3D 3F-4D 50-5D 80-FA 101:00-02 07-33 37-8E 90-9C A0 D0-FD 102:80-9C A0-D0 E0-FB",
  "103:00-23 2D-4A 50-7A 80-9D 9F-C3 C8-D5 104:00-9D A0-A9 B0-D3 D8-FB 105:00-27 30-63 6F-7A 7C-8A 8C-92 94-95",
  "105:97-A1 A3-B1 B3-B9 BB-BC C0-F3 106:00-107:36 40-55 60-67 80-85 87-B0 B2-BA 108:00-05 08 0A-35 37-38 3C",
  "108:3F-55 57-9E A7-AF E0-F2 F4-F5 FB-109:1B 1F-39 3F-59 80-B7 BC-CF D2-10A:03 05-06 0C-13 15-17 19-35 38-3A",
  "10A:3F-48 50-58 60-9F C0-E6 EB-F6 10B:00-35 39-55 58-72 78-91 99-9C A9-AF 10C:00-48 80-B2 C0-F2 FA-10D:27",
  "10D:30-39 40-65 69-85 8E-8F 10E:60-7E 80-A9 AB-AD B0-B1 C2-C7 D0-D8 FA-10F:27 30-59 70-89 B0-CB E0-F6",
  "110:00-4D 52-75 7F-BC BE-C2 D0-E8 F0-F9 111:00-34 36-47 50-76 80-DF E1-F4 112:00-11 13-41 80-86 88 8A-8D",
  "112:8F-9D 9F-A9 B0-EA F0-F9 113:00-03 05-0C 0F-10 13-28 2A-30 32-33 35-39 3B-44 47-48 4B-4D 50 57 5D-63",
  "113:66-6C 70-74 80-89 8B 8E 90-B5 B7-C0 C2 C5 C7-CA CC-D5 D7-D8 E1-E2 114:00-5B 5D-61 80-C7 D0-D9 115:80-B5",
  "115:B8-DD 116:00-44 50-59 60-6C 80-B9 C0-C9 D0-E3 117:00-1A 1D-2B 30-46 118:00-3B A0-F2 FF-119:06 09 0C-13",
  "119:15-16 18-35 37-38 3B-46 50-59 A0-A7 AA-D7 DA-E4 11A:00-47 50-A2 B0-F8 11B:00-09 60-67 C0-E1 F0-F9",
  "11C:00-08 0A-36 38-45 50-6C 70-8F 92-A7 A9-B6 11D:00-06 08-09 0B-36 3A 3C-3D 3F-47 50-59 60-65 67-68 6A-8E",
  "11D:90-91 93-98 A0-A9 B0-DB E0-E9 11E:E0-F8 11F:00-10 12-3A 3E-5A B0 C0-F1 FF-123:99 124:00-6E 70-74",
  "124:80-125:43 12F:90-F2 130:00-134:2F 40-55 60-143:FA 144:00-146:46 161:00-39 168:00-16A:38 40-5E 60-69",
  "16A:6E-BE C0-C9 D0-ED F0-F5 16B:00-45 50-59 5B-61 63-77 7D-8F 16D:40-79 16E:40-9A A0-B8 BB-D3 16F:00-4A",
  "16F:4F-87 8F-9F E0-E4 F0-F6 170:00-18C:D5 FF-18D:1E 80-F2 1AF:F0-F3 F5-FB FD-FE 1B0:00-1B1:22 32 50-52 55",
  "1B1:64-67 70-1B2:FB 1BC:00-6A 70-7C 80-88 90-99 9C-9F 1CC:00-FC 1CD:00-1CE:B3 BA-D0 E0-F0 1CF:00-2D 30-46",
  "1CF:50-C3 1D0:00-F5 1D1:00-26 29-72 7B-EA 1D2:00-45 C0-D3 E0-F3 1D3:00-56 60-78 1D4:00-54 56-9C 9E-9F A2",
  "1D4:A5-A6 A9-AC AE-B9 BB BD-C3 C5-1D5:05 07-0A 0D-14 16-1C 1E-39 3B-3E 40-44 46 4A-50 52-1D6:A5 A8-1D7:CB",
  "1D7:CE-1DA:8B 9B-9F A1-AF 1DF:00-1E 25-2A 1E0:00-06 08-18 1B-21 23-24 26-2A 30-6D 8F 1E1:00-2C 30-3D 40-49",
  "1E1:4E-4F 1E2:90-AE C0-F9 FF 1E4:D0-F9 1E5:D0-FA FF 1E6:C0-DE E0-F5 FE-FF 1E7:E0-E6 E8-EB ED-EE F0-FE",
  "1E8:00-C4 C7-D6 1E9:00-4B 50-59 5E-5F 1EC:71-B4 1ED:01-3D 1EE:00-03 05-1F 21-22 24 27 29-32 34-37 39 3B 42",
  "1EE:47 49 4B 4D-4F 51-52 54 57 59 5B 5D 5F 61-62 64 67-6A 6C-72 74-77 79-7C 7E 80-89 8B-9B A1-A3 A5-A9 AB-BB",
  "1EE:F0-F1 1F0:00-2B 30-93 A0-AE B1-BF C1-CF D1-F5 1F1:00-AD E6-1F2:02 10-3B 40-48 50-51 60-65 1F3:00-1F6:D8",
  "1F6:DC-EC F0-FC 1F7:00-D9 E0-EB F0 1F8:00-0B 10-47 50-59 60-87 90-AD B0-BB C0-C1 D0-D8 1F9:00-1FA:57 60-6D",
  "1FA:70-7C 80-8A 8E-C6 C8 CD-DC DF-EA EF-F8 1FB:00-92 94-FA 200:00-2A6:DF 2A7:00-2B8:1D 20-2CE:AD B0-2EB:E0",
  "2EB:F0-2EE:5D 2F8:00-2FA:1D 300:00-313:4A 50-334:79 E01:00-EF"]

def isPrintable (c : Char) : Bool :=
  if c.toNat < 0x7F then 0x20 ≤ c.toNat else inRanges printableRanges c.toNat

end Peano.Text
