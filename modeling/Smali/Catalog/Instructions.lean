import Smali.Catalog

/-!
# The instructions, by their byte

Each row has the pattern of the instruction, the shape of its operands, what it does and a sample.
-/

namespace Smali
namespace Catalog

/-- moves, returns, constants and monitors, `00` to `1f` -/
def moves : List Entry :=
  [Entry.op "00" "nop" .none
     "No operation"
     "0000 - nop",
   Entry.op "01" "move vx,vy" .regReg
     "Moves the content of vy into vx. Both registers must be in the first 256 register range."
     "0110 - move v0, v1Moves v1 into v0.",
   Entry.op "02" "move/from16 vx,vy" .regReg
     "Moves the content of vy into vx. vy may be in the 64k register range while vx is one of the first 256 registers."
     "0200 1900 - move/from16 v0, v25Moves v25 into v0.",
   Entry.op "03" "move/16 vx,vy" .regReg
     "Moves the content of vy into vx. Both registers may be in the 64k register range."
     "0300 1000 2000 - move/16 v16, v32 Moves v32 into v16.",
   Entry.op "04" "move-wide vx,vy" .regReg
     "Moves a long/double value from vy,vy+1 to vx,vx+1."
     "0420 - move-wide v0, v2 Moves the long/double value in v2,v3 into v0,v1.",
   Entry.op "05" "move-wide/from16 vx,vy" .regReg
     "Moves a long/double value from vy to vx. vy may be in the 64k register range while wx is one of thefirst 256 registers."
     "0516 0000 - move-wide/from16v22, v0Moves v0 into v22.",
   Entry.op "06" "move-wide/16 vx,vy" .regReg
     "Moves a long/double value from vy to vx. Both registers may be in the 64k register range."
     "0600 1000 2000 - move-wide/16 v16, v32 Moves v32,v33 into v16,v17.",
   Entry.op "07" "move-object vx,vy" .regReg
     "Moves the object reference from vy to vx."
     "0781 - move-object v1, v8Moves the object reference in v8 to v1.",
   Entry.op "08" "move-object/from16 vx,vy" .regReg
     "Moves the object reference from vy to vx, vy can address 64k registers and vx can address 256 registers."
     "0801 1500 - move-object/from16v1, v21Move the object reference in v21 to v1.",
   Entry.op "09" "move-object/16 vx,vy" .regReg
     "Moves the object reference from vy to vx. Both registers may be in the 64k register range."
     "0900 1000 2000 - move-object/16 v16, v32 Moves the object reference in v32 to v16.",
   Entry.op "0A" "move-result vx" .reg
     "Move the result value of the previous method invocation into vx."
     "0A00 - move-result v0Move the return value of a previous method invocation into v0.",
   Entry.op "0B" "move-result-wide vx" .reg
     "Move the long/double result value of the previous method invocation into vx, vx+1."
     "0B02 - move-result-wide v2Move the long/double result value of the previous method invocationinto v2,v3.",
   Entry.op "0C" "move-result-object vx" .reg
     "Move the result object reference of the previous method invocation into vx."
     "0C00 - move-result-object v0",
   Entry.op "0D" "move-exception vx" .reg
     "Move the exception object reference thrown during a method invocation into vx."
     "0D19 - move-exception v25",
   Entry.op "0E" "return-void" .none
     "Return without a return value"
     "0E00 - return-void",
   Entry.op "0F" "return vx" .reg
     "Return with vx return value"
     "0F00 - return v0Returns with return value in v0.",
   Entry.op "10" "return-wide vx" .reg
     "Return with double/long result in vx, vx+1."
     "1000 - return-wide v0Returns with a double/long value in v0,v1.",
   Entry.op "11" "return-object vx" .reg
     "Return with vx object reference value."
     "1100 - return-object v0Returns with object reference value in v0",
   Entry.op "12" "const/4 vx,lit4" .regLiteral
     "Puts the 4 bit constant into vx"
     "1221 - const/4 v1, #int2Moves literal 2 into v1. The destination register is in the lower 4 bitin the second byte, the literal 2 is in the higher 4 bit.",
   Entry.op "13" "const/16 vx,lit16" .regLiteral
     "Puts the 16 bit constant into vx"
     "1300 0A00 - const/16 v0, #int 10Puts the literal constant of 10 into v0.",
   Entry.op "14" "const vx, lit32" .regLiteral
     "Puts the integer constant into vx"
     "1400 4E61 BC00 - const v0,#12345678 // #00BC614EMoves literal 12345678 into v0.",
   Entry.op "15" "const/high16 vx,lit16" .regLiteral
     "Puts the 16 bit constant into the topmost bits of the register. Used to initialize float values."
     "1500 2041 - const/high16 v0,#float 10.0 // #41200000Moves the floating literal of 10.0 into v0. The 16 bit literal in theinstruction carries the top 16 bits of the floating point number.",
   Entry.op "16" "const-wide/16 vx, lit16" .regLiteral
     "Puts the integer constant into vx and vx+1 registers, expanding the integer constant into a long constant."
     "1600 0A00 - const-wide/16 v0,#long 10Moves literal 10 into v0 and v1 registers.",
   Entry.op "17" "const-wide/32 vx, lit32" .regLiteral
     "Puts the 32 bit constant into vx and vx+1 registers, expanding the integer constant into a long constant."
     "1702 4e61 bc00 - const-wide/32v2, #long 12345678 // #00bc614ePuts #12345678 into v2 and v3 registers.",
   Entry.op "18" "const-wide vx, lit64" .regLiteral
     "Puts the 64 bit constant into vx and vx+1 registers."
     "1802 874b 6b5d 54dc 2b00-const-wide v2, #long 12345678901234567 // #002bdc545d6b4b87Puts #12345678901234567 into v2 and v3 registers.",
   Entry.op "19" "const-wide/high16 vx,lit16" .regLiteral
     "Puts the 16 bit constant into the highest 16 bit of vx and vx+1 registers. Used to initialize double values."
     "1900 2440 - const-wide/high16v0, #double 10.0 // #402400000Puts the double constant of 10.0 into v0 register.",
   Entry.op "1A" "const-string vx,string_id" .regString
     "Puts reference to a string constant identified by string_id into vx."
     "1A08 0000 - const-string v8 // string@0000Puts reference to string@0000 (entry #0 in the string table) into v8.",
   Entry.op "1B" "const-string/jumbo vx,string_id" .regString
     "Puts reference to a string constant identified by a 32-bit string_id into vx."
     "1B00 0000 0100 - const-string/jumbo v0, \"text\" Puts reference to string@00010000 into v0.",
   Entry.op "1C" "const-class vx,type_id" .regType
     "Moves the class object of a class identified by type_id (e.g. Object.class) into vx."
     "1C00 0100 - const-class v0,Test3 // type@0001Moves reference to Test3.class (entry#1 in the type id table) into",
   Entry.op "1D" "monitor-enter vx" .reg
     "Obtains the monitor of the object referenced by vx."
     "1D03 - monitor-enter v3Obtains the monitor of the object referenced by v3.",
   Entry.op "1E" "monitor-exit vx" .reg
     "Releases the monitor of the object referenced by vx."
     "1E03 - monitor-exit v3Releases the monitor of the object referenced by v3.",
   Entry.op "1F" "check-cast vx, type_id" .regType
     "Checks whether the object reference in vx can be cast to an instance of a class referenced by type_id. Throws ClassCastException if the cast is not possible, continues execution otherwise."
     "1F04 0100 - check-cast v4, Test3// type@0001Checks whether the object reference in v4 can be cast to type@0001(entry #1 in the type id table)"]

/-- types, arrays, throws, jumps, comparisons and branches, `20` to `43` -/
def objects : List Entry :=
  [Entry.op "20" "instance-of vx,vy,type_id" .regRegType
     "Checks whether vy is instance of a class identified by type_id. Sets vx non-zero if it is, 0 otherwise."
     "2040 0100 - instance-of v0, v4,Test3 // type@0001Checks whether the object reference in v4 is an instance of type@0001(entry #1 in the type id table). Sets v0 to non-zero if v4 is instanceof Test3, 0 otherwise.",
   Entry.op "21" "array-length vx,vy" .regReg
     "Calculates the number of elements of the array referenced by vy and puts the length value into vx."
     "2111 - array-length v1, v1Calculates the number of elements of the array referenced by v1 andputs the result into v1.",
   Entry.op "22" "new-instance vx,type" .regType
     "Instantiates an object type and puts the reference of the newly created instance into vx."
     "2200 1500 - new-instance v0,java.io.FileInputStream // type@0015Instantiates type@0015 (entry #15H in the type table) and puts itsreference into v0.",
   Entry.op "23" "new-array vx,vy,type_id" .regRegType
     "Generates a new array of type_id type and vy element size and puts the reference to the array into vx."
     "2312 2500 - new-array v2, v1,char[] // type@0025Generates a new array of type@0025 type and v1 size and puts thereference to the new array into v2.",
   Entry.op "24" "filled-new-array \x7bparameters\x7d,type_id" .regListType
     "Generates a new array of type_id and fills it with the parameters. Reference to the newlygenerated array can be obtained by a move-result-object instruction,immediately following the filled-new-array instruction."
     "2420 530D 0000 -filled-new-array v0,v0,[I // type@0D53Generates a new array of type@0D53. The array's size will be 2 and bothelements will be filled with the contents of v0 register.",
   Entry.op "25" "filled-new-array/range \x7bvx..vy\x7d,type_id" .regRangeType
     "Generates a new array of type_id and fills it with a range of parameters. Reference to the newly generated array can be obtained by a move-result-object instruction, immediately following the filled-new-array instruction."
     "2503 0600 1300 -filled-new-array/range v19..v21, [B // type@0006Generates a new array of type@0D53. The array's size will be 3 and theelements will be filled using the v19,v20 and v21 registers <sup>4</sup>.",
   Entry.op "26" "fill-array-data vx,array_data_offset" .regLabel
     "Fills the array referenced by vx with the static data. The location of the static data is the sum of the position of the current instruction and the offset"
     "2606 2500 0000 - fill-array-datav6, 00e6 // +0025Fills the array referenced by v0 with the static data at currentinstruction+25H words location. The offset is expressed as a 32-bitnumber. The static data is stored in the following format:0003 // Table type: static array data0400 // Byte per array element (in this case, 4 byte integers)0300 0000 // Number of elements in the table0100 0000 // Element #0: integer 10200 0000 // Element #1: integer 20300 0000 // Element #2: integer3",
   Entry.op "27" "throw vx" .reg
     "Throws an exception object. The reference of the exception object is in vx."
     "2700 - throw v0Throws an exception. The exception object reference is in v0.",
   Entry.op "28" "goto target" .label
     "Unconditional jump by short offset."
     "28F0 - goto 0005 // -0010Jumps to current position-16 words (hex 10). 0005 is the label of thetarget instruction.",
   Entry.op "29" "goto/16 target" .label
     "Unconditional jump by 16 bit offset."
     "2900 0FFE - goto/16 002f // -01f1Jumps to the current position-1F1H words. 002F is the label of thetarget instruction.",
   Entry.op "2A" "goto/32 target" .label
     ""
     "",
   Entry.op "2B" "packed-switch vx,table" .regLabel
     "Implements a switch statement where the case constants are close to each other. The instruction uses an index table. vx indexes into this table to find the offset of the instruction for a particular case. If vx falls out of the index table, the execution continues on the next instruction (default case)."
     "2B02 0C00 0000 - packed-switchv2, 000c // +000cExecute a packed switch according to the switch argument in v2. Theposition of the index table is at current instruction+0CH words. Thetable looks like the following:0001 // Table type: packed switch table0300 // number of elements0000 0000 // element base0500 0000 0: 00000005 // case 0: +000000050700 0000 1: 00000007 // case 1: +000000070900 0000 2: 00000009 // case 2: +00000009",
   Entry.op "2C" "sparse-switch vx,table" .regLabel
     "Implements a switch statement with sparse case table. The instruction uses a lookup table with case constants and offsets for each case constant. If there is no match in the table, execution continues on the next instruction (default case)."
     "2C02 0c00 0000 - sparse-switchv2, 000c // +000cExecute a sparse switch according to the switch argument in v2. Theposition of the lookup table is at current instruction+0CH words. Thetable looks like the following.0002 // Table type: sparse switch table0300 // number of elements9cff ffff // first case: -100fa00 0000 // second case constant: 250e803 0000 // third case constant: 10000500 0000 // offset for the first case constant: +50700 0000 // offset for the second case constant: +70900 0000 // offset for the third case constant: +9",
   Entry.op "2D" "cmpl-float vx,vy,vz" .regRegReg
     "Compares the float values in vy and vz and sets the integer value in vx accordingly."
     "2D00 0607 - cmpl-float v0, v6, v7Compares the float values in v6 and v7 then sets v0 accordingly. NaNbias is less-than, the instruction will return -1 if any of theparameters is NaN.",
   Entry.op "2E" "cmpg-float vx, vy, vz" .regRegReg
     "Compares the float values in vy and vz and sets the integer value in vx accordingly."
     "2E00 0607 - cmpg-float v0, v6, v7Compares the float values in v6 and v7 then sets v0 accordingly. NaNbias is greater-than, the instruction will return 1 if any of theparameters is NaN.",
   Entry.op "2F" "cmpl-double vx,vy,vz" .regRegReg
     "Compares the double values in vy and vz and sets the integer value in vx accordingly."
     "2F19 0608 - cmpl-double v25, v6,v8Compares the double values in v6,v7 and v8,v9 and sets v25 accordingly.NaN bias is less-than, the instruction will return -1 if any of theparameters is NaN.",
   Entry.op "30" "cmpg-double vx, vy, vz" .regRegReg
     "Compares the double values in vy and vz and sets the integer value in vx accordingly."
     "3000 080A - cmpg-double v0, v8,v10Compares the double values in v8,v9 and v10,v11 then sets v0accordingly. NaN bias is greater-than, the instruction will return 1 ifany of the parameters is NaN.",
   Entry.op "31" "cmp-long vx, vy, vz" .regRegReg
     "Compares the long values in vy and vz and sets the integer value in vx accordingly."
     "3100 0204 - cmp-long v0, v2, v4Compares the long values in v2 and v4 then sets v0 accordingly.",
   Entry.op "32" "if-eq vx,vy,target" .regRegLabel
     "Jumps to target if vx == vy. vx and vy are integer values."
     "32b3 6600 - if-eq v3, v11, 0080// +0066Jumps to the current position+66H words if v3==v11. 0080 is the labelof the target instruction.",
   Entry.op "33" "if-ne vx,vy,target" .regRegLabel
     "Jumps to target if vx != vy. vx and vy are integer values."
     "33A3 1000 - if-ne v3, v10, 002c// +0010Jumps to the current position+10H words if v3!=v10. 002c is the labelof the target instruction.",
   Entry.op "34" "if-lt vx,vy,target" .regRegLabel
     "Jumps to target is vx < vy. vx and vy are integer values."
     "3432 CBFF - if-lt v2, v3, 0023// -0035Jumps to the current position-35H words if v2<v3. 0023 is the labelof the target instruction.",
   Entry.op "35" "if-ge vx, vy,target" .regRegLabel
     "Jumps to target if vx> = vy. vx and vy are integer values."
     "3510 1B00 - if-ge v0, v1, 002b//+001bJumps to the current position+1BH words if v0>=v1. 002b is the labelof the target instruction.",
   Entry.op "36" "if-gt vx,vy,target" .regRegLabel
     "Jumps to target if vx > vy. vx and vy are integer values."
     "3610 1B00 - if-ge v0, v1, 002b//+001bJumps to the current position+1BH words if v0>v1. 002b is the labelof the target instruction.",
   Entry.op "37" "if-le vx,vy,target" .regRegLabel
     "Jumps to target if vx <= vy. vx and vy are integer values."
     "3756 0B00 - if-le v6, v5, 0144// +000bJumps to the current position+0BH words if v6<=v5. 0144 is the labelof the target instruction.",
   Entry.op "38" "if-eqz vx,target" .regLabel
     "Jumps to target if vx == 0. vx is an integer value."
     "3802 1900 - if-eqz v2, 0038 //+0019Jumps to the current position+19H words if v2==0. 0038 is the labelof the target instruction.",
   Entry.op "39" "if-nez vx,target" .regLabel
     "Checks vx and jumps if vx isnonzero <sup>2</sup>."
     "3902 1200 - if-nez v2, 0014 //+0012Jumps to current position+18 words (hex 12) if v2 is nonzero. 0014 isthe label of the target instruction.",
   Entry.op "3A" "if-ltz vx,target" .regLabel
     "Checks vx and jumps if vx < 0."
     "3A00 1600 - if-ltz v0, 002d //+0016Jumps to the current position+16H words if v0<0. 002d is the labelof the target instruction.",
   Entry.op "3B" "if-gez vx,target" .regLabel
     "Checks vx and jumps if vx >= 0."
     "3B00 1600 - if-gez v0, 002d //+0016Jumps to the current position+16H words if v0 >=0. 002d is the labelof the target instruction.",
   Entry.op "3C" "if-gtz vx,target" .regLabel
     "Checks vx and jumps if vx > 0."
     "3C00 1D00 - if-gtz v0, 004a //+001dJumps to the current position+1DH words if v0>0. 004A is the labelof the target instruction.",
   Entry.op "3D" "if-lez vx,target" .regLabel
     "Checks vx and jumps if vx <= 0.."
     "3D00 1D00 - if-lez v0, 004a //+001dJumps to the current position+1DH words if v0<=0. 004A is the labelof the target instruction."]

/-- array elements, fields and calls, `44` to `7a` -/
def accesses : List Entry :=
  [Entry.op "44" "aget vx,vy,vz" .regRegReg
     "Gets an integer value of an object reference array into vx. The array is referenced by vy and is indexed by vz."
     "4407 0306 - aget v7, v3, v6Gets an integer array element. The array is referenced by v3and the element is indexed by v6. The element will be put into v7.",
   Entry.op "45" "aget-wide vx,vy,vz" .regRegReg
     "Gets a long/double value of long/double array into vx, vx+1. The array is referenced by vy and is indexed by vz."
     "4505 0104 - aget-wide v5, v1, v4Gets a long/double array element. The array is referenced by v1and the element is indexed by v4. The element will be put into v5,v6.",
   Entry.op "46" "aget-object vx,vy,vz" .regRegReg
     "Gets an object reference value of an object reference array into vx. The array is referenced by vy and is indexed by vz."
     "4602 0200 - aget-object v2, v2,v0Gets an object reference array element. The array is referenced by v2and the element is indexed by v0. The element will be put into v2.",
   Entry.op "47" "aget-boolean vx,vy,vz" .regRegReg
     "Gets a boolean value of a boolean array into vx. The array is referenced by vy and is indexed by vz."
     "4700 0001 - aget-boolean v0, v0,v1 Gets a boolean array element. The array is referenced by v0and the element is indexed by v1. The element will be put into v0.",
   Entry.op "48" "aget-byte vx,vy,vz" .regRegReg
     "Gets a byte value of a byte array into vx. The array is referenced by vy and is indexed by vz."
     "4800 0001 - aget-byte v0, v0, v1Gets a byte array element. The array is referenced by v0and the element is indexed by v1. The element will be put into v0.",
   Entry.op "49" "aget-char vx, vy,vz" .regRegReg
     "Gets a char value of a character array into vx. The element is indexed by vz, the array object is referenced by vy."
     "4905 0003 - aget-char v5, v0, v3Gets a character array element. The array is referenced by v0 and theelement is indexed by v3. The element will be put into v5.",
   Entry.op "4A" "aget-short vx,vy,vz" .regRegReg
     "Gets a short value of ashort array into vx. The element is indexed by vz, the array object is referenced by vy."
     "4A00 0001 - aget-short v0, v0, v1Gets a short array element. The array is referenced by v0 and theelement is indexed by v1. The element will be put into v0.",
   Entry.op "4B" "aput vx,vy,vz" .regRegReg
     "Puts the integer value in vx into an element of an integer array. The element is indexed by vz, the array object is referenced by vy."
     "4B00 0305 - aput v0, v3, v5Puts the integer value in v2 into an integer arrayreferenced by v0. The target array element is indexed by v1.",
   Entry.op "4C" "aput-wide vx,vy,vz" .regRegReg
     "Puts the double/long value in vx, vx+1 into a double/long array. The array is referenced by vy, the element is indexed by vz."
     "4C05 0104 - aput-wide v5, v1, v4Puts the double/long value in v5,v6 into a double/long arrayreferenced by v1. The target array element is indexed by v4.",
   Entry.op "4D" "aput-object vx,vy,vz" .regRegReg
     "Puts the object reference value in vx into an element of an object reference array. The element is indexed by vz, the array object is referenced by vy."
     "4D02 0100 - aput-object v2, v1,v0Puts the object reference value in v2 into an object reference arrayreferenced by v0. The target array element is indexed by v1.",
   Entry.op "4E" "aput-boolean vx,vy,vz" .regRegReg
     "Puts the boolean value in vx into an element of a boolean array. The element is indexed by vz, the array object is referenced by vy."
     "4E01 0002 - aput-boolean v1, v0,v2Puts the boolean value in v1 into an object reference arrayreferenced by v0. The target array element is indexed by v2.",
   Entry.op "4F" "aput-byte vx,vy,vz" .regRegReg
     "Puts the byte value in vx into an element of a byte array. The element is indexed by vz, the array object is referenced by vy."
     "4F02 0001 - aput-byte v2, v0, v1Puts the boolean value in v2 into a byte arrayreferenced by v0. The target array element is indexed by v1.",
   Entry.op "50" "aput-char vx,vy,vz" .regRegReg
     "Puts the char value in vx into an element of a character array. The element is indexed by vz, the array object is referenced by vy."
     "5003 0001 - aput-char v3, v0, v1Puts the character value in v3 into a character array referenced by v0.The target array element is indexed by v1.",
   Entry.op "51" "aput-short vx,vy,vz" .regRegReg
     "Puts the short value in vx into an element of a short array. The element is indexed by vz, the array object is referenced by vy."
     "5102 0001 - aput-short v2, v0, v1Puts the short value in v2 into a character array referenced by v0.The target array element is indexed by v1.",
   Entry.op "52" "iget vx, vy, field_id" .regRegField
     "Reads an instance field into vx. The instance is referenced by vy."
     "5210 0300 - iget v0, v1,Test2.i6:I // field@0003Reads field@0003 into v0 (entry #3 in the field id table). The instanceis referenced by v1.",
   Entry.op "53" "iget-wide vx,vy,field_id" .regRegField
     "Reads an instance field into vx. The instance is referenced by vy."
     "5320 0400 - iget-wide v0, v2,Test2.l0:J // field@0004Reads field@0004 into v0 and v1 registers (entry #4 in the field idtable). The instance is referenced by v2.",
   Entry.op "54" "iget-object vx,vy,field_id" .regRegField
     "Reads an object reference instance field into vx. The instance is referenced by vy."
     "iget-object v1, v2,LineReader.fis:Ljava/io/FileInputStream; // field@0002Reads field@0002 into v1 (entry #2 in the field idtable). The instance is referenced by v2.",
   Entry.op "55" "iget-boolean vx,vy,field_id" .regRegField
     "Reads a boolean instance field into vx. The instance is referenced by vy."
     "55FC 0000 - iget-boolean v12,v15, Test2.b0:Z // field@0000Reads the boolean field@0000 into v12 register (entry #0 in the fieldid table). The instance is referenced by v15.",
   Entry.op "56" "iget-byte vx,vy,field_id" .regRegField
     "Reads a byte instance field into vx. The instance is referenced by vy."
     "5632 0100 - iget-byte v2, v3,Test3.bi1:B // field@0001Reads the char field@0001 into v2 register (entry #1 in the fieldid table). The instance is referenced by v3.",
   Entry.op "57" "iget-char vx,vy,field_id" .regRegField
     "Reads a char instance field into vx. The instance is referenced by vy."
     "5720 0300 - iget-char v0, v2,Test3.ci1:C // field@0003Reads the char field@0003 into v0 register (entry #3 in the fieldid table). The instance is referenced by v2.",
   Entry.op "58" "iget-short vx,vy,field_id" .regRegField
     "Reads a short instance field into vx. The instance is referenced by vy."
     "5830 0800 - iget-short v0, v3,Test3.si1:S // field@0008Reads the short field@0008 into v0 register (entry #8 in the fieldid table). The instance is referenced by v3.",
   Entry.op "59" "iput vx,vy, field_id" .regRegField
     "Puts vx into an instance field. The instance is referenced by vy."
     "5920 0200 - iput v0,v2,Test2.i6:I // field@0002Stores v0 into field@0002 (entry #2 in the field id table). Theinstance is referenced by v2.",
   Entry.op "5A" "iput-wide vx,vy, field_id" .regRegField
     "Puts the wide value located in vx and vx+1 registers into an instance field. The instance is referenced by vy."
     "5A20 0000 - iput-wide v0,v2,Test2.d0:D // field@0000 Stores the wide value in v0, v1 registers into field@0000 (entry #0 inthe field id table). The instance is referenced by v2.",
   Entry.op "5B" "iput-object vx,vy,field_id" .regRegField
     "Puts the object reference in vx into an instance field. The instance is referenced by vy."
     "5B20 0000 - iput-object v0, v2,LineReader.bis:Ljava/io/BufferedInputStream; // field@0000Stores the object reference in v0 into field@0000 (entry #0 in thefield table). The instance is referenced by v2.",
   Entry.op "5C" "iput-boolean vx,vy, field_id" .regRegField
     "Puts the boolean value located in vx into an instance field. The instance is referenced by vy."
     "5C30 0000 - iput-boolean v0, v3,Test2.b0:Z // field@0000Puts the boolean value in v0 into field@0000 (entry #0 in the field idtable). The instance is referenced by v3.",
   Entry.op "5D" "iput-byte vx,vy,field_id" .regRegField
     "Puts the byte value located in vx into an instance field. The instance is referenced by vy."
     "5D20 0100 - iput-byte v0, v2,Test3.bi1:B // field@0001Puts the boolean value in v0 into field@0001 (entry #1 in the field idtable). The instance is referenced by v2.",
   Entry.op "5E" "iput-char vx,vy,field_id" .regRegField
     "Puts the char value located in vx into an instance field. The instance is referenced by vy."
     "5E20 0300 - iput-char v0, v2,Test3.ci1:C // field@0003Puts the char value in v0 into field@0003 (entry #3 in the field idtable). The instance is referenced by v2.",
   Entry.op "5F" "iput-short vx,vy,field_id" .regRegField
     "Puts the short value located in vx into an instance field. The instance is referenced by vy."
     "5F21 0800 - iput-short v1, v2,Test3.si1:S // field@0008Puts the short value in v1 into field@0008 (entry #8 in the field idtable). The instance is referenced by v2.",
   Entry.op "60" "sget vx,field_id" .regField
     "Reads the integer field identified by the field_id into vx."
     "6000 0700 - sget v0, Test3.is1:I// field@0007Reads field@0007 (entry #7 in the field id table) into v0.",
   Entry.op "61" "sget-wide vx, field_id" .regField
     "Reads the static field identified by the field_id into vx and vx+1 registers."
     "6100 0500 - sget-wide v0,Test2.l1:J // field@0005Reads field@0005 (entry #5 in the field id table) into v0 and v1registers.",
   Entry.op "62" "sget-object vx,field_id" .regField
     "Reads the object reference field identified by the field_id into vx."
     "6201 0C00 - sget-object v1,Test3.os1:Ljava/lang/Object; // field@000cReads field@000c (entry #CH in the field id table) into v1.",
   Entry.op "63" "sget-boolean vx,field_id" .regField
     "Reads the boolean static field identified by the field_id into vx."
     "6300 0C00 - sget-boolean v0,Test2.sb:Z // field@000cReads boolean field@000c (entry #12 in the field id table) into v0.",
   Entry.op "64" "sget-byte vx,field_id" .regField
     "Reads the byte static field identified by the field_id into vx."
     "6400 0200 - sget-byte v0,Test3.bs1:B // field@0002Reads byte field@0002 (entry #2 in the field id table) into v0.",
   Entry.op "65" "sget-char vx,field_id" .regField
     "Reads the char static field identified by the field_id into vx."
     "6500 0700 - sget-char v0,Test3.cs1:C // field@0007Reads byte field@0007 (entry #7 in the field id table) into v0.",
   Entry.op "66" "sget-short vx,field_id" .regField
     "Reads the short static field identified by the field_id into vx."
     "6600 0B00 - sget-short v0,Test3.ss1:S // field@000bReads short field@000b (entry #BH in the field id table) into v0.",
   Entry.op "67" "sput vx, field_id" .regField
     "Puts vx into a static field."
     "6700 0100 - sput v0, Test2.i5:I// field@0001Stores v0 into field@0001 (entry #1 in the field id table).",
   Entry.op "68" "sput-wide vx, field_id" .regField
     "Puts vx and vx+1 into a static field."
     "6800 0500 - sput-wide v0,Test2.l1:J // field@0005Puts the long value in v0 and v1 into the field@0005 static field(entry #5 in the field id table).",
   Entry.op "69" "sput-object vx,field_id" .regField
     "Puts object reference in vx into a static field."
     "6900 0c00 - sput-object v0,Test3.os1:Ljava/lang/Object; // field@000cPuts the object reference value in v0 into the field@000c static field(entry #CH in the field id table).",
   Entry.op "6A" "sput-boolean vx,field_id" .regField
     "Puts boolean value in vx into a static field."
     "6A00 0300 - sput-boolean v0,Test3.bls1:Z // field@0003Puts the byte value in v0 into the field@0003 static field(entry #3 in the field id table).",
   Entry.op "6B" "sput-byte vx,field_id" .regField
     "Puts byte value in vx into a static field."
     "6B00 0200 - sput-byte v0,Test3.bs1:B // field@0002Puts the byte value in v0 into the field@0002 static field(entry #2 in the field id table).",
   Entry.op "6C" "sput-char vx,field_id" .regField
     "Puts char value in vx into a static field."
     "6C01 0700 - sput-char v1,Test3.cs1:C // field@0007Puts the char value in v1 into the field@0007 static field(entry #7 in the field id table).",
   Entry.op "6D" "sput-short vx,field_id" .regField
     "Puts short value in vx into a static field."
     "6D00 0B00 - sput-short v0,Test3.ss1:S // field@000bPuts the short value in v0 into the field@000b static field(entry #BH in the field id table).",
   Entry.op "6E" "invoke-virtual \x7b parameters\x7d , methodtocall" .regListMethod
     "Invokes a virtual method with parameters."
     "6E53 0600 0421 - invoke-virtual v4, v0, v1, v2, v3, Test2.method5:(IIII)V // method@0006Invokes the 6th method in the method table with the followingarguments: v4 is the \"this\" instance, v0, v1, v2, and v3 are the methodparameters. The method has 5 arguments (4 MSB bits of the second byte) <sup>5</sup>.",
   Entry.op "6F" "invoke-super \x7b parameter\x7d , methodtocall" .regListMethod
     "Invokes the virtual method of the immediate parent class."
     "6F10 A601 0100 invoke-super v1,java.io.FilterOutputStream.close:()V // method@01a6Invokes method@01a6 with one parameter, v1.",
   Entry.op "70" "invoke-direct \x7bparameters \x7d, methodtocall" .regListMethod
     "Invokes a method with parameters without the virtual method resolution."
     "7010 0800 0100 - invoke-direct v1, java.lang.Object.<init>:()V // method@0008Invokes the 8th method in the method table with just one parameter, v1is the \"this\" instance <sup>5</sup>.",
   Entry.op "71" "invoke-static \x7bparameters\x7d, methodtocall" .regListMethod
     "Invokes a static method with parameters."
     "7110 3400 0400 - invoke-static v4, java.lang.Integer.parseInt:( Ljava/lang/String;)I // method@0034Invokes method@34 static method. The method is called with oneparameter, v4 <sup>5</sup>.",
   Entry.op "72" "invoke-interface \x7bparameters\x7d, methodtocall" .regListMethod
     "Invokes an interface method."
     "7240 2102 3154 invoke-interface v1, v3, v4, v5, mwfw.IReceivingProtocolAdapter.receivePackage:(ILjava/lang/String;Ljava/io/InputStream;)Z // method@0221Invokes method@221 interface method using parameters in v1,v3,v4 and v5 <sup>5</sup>.",
   Entry.odex "73" "return-void-no-barrier" .none
     "Return without a return value, omitting the constructor memory barrier. Replaces return-void in optimized dex."
     "7300 - return-void-no-barrier",
   Entry.op "74" "invoke-virtual/range \x7bvx..vy\x7d, methodtocall" .regRangeMethod
     "Invokes virtual method with arange of registers. The instruction specifies the first register and the number of registers to be passed to the method."
     "7403 0600 1300 - invoke-virtual v19..v21, Test2.method5:(IIII)V // method@0006Invokes the 6th method in the method table with the followingarguments: v19 is the \"this\" instance, v20 and v21 are the methodparameters.",
   Entry.op "75" "invoke-super/range \x7bvx..vy\x7d, methodtocall" .regRangeMethod
     "Invokes the virtual method of the immediate parent class. The instruction specifies the first register and the number of registers to be passed to the method."
     "7501 A601 0100 invoke-super v1,java.io.FilterOutputStream.close:()V // method@01a6Invokes method@01a6 with one parameter, v1.",
   Entry.op "76" "invoke-direct/range \x7bvx..vy\x7d, methodtocall" .regRangeMethod
     "Invokes direct method with arange of registers. The instruction specifies the first register andthe number of registers to be passed to the method."
     "7603 3A00 1300 -invoke-direct/range v19..21,java.lang.Object.<init>:()V //method@003aInvokes method@3A with 1 parameters (second byte of theinstruction=03). The parameter is stored in v19 (5th,6th bytes of theinstruction).",
   Entry.op "77" "invoke-static/range \x7bvx..vy\x7d,methodtocall" .regRangeMethod
     "Invokes static method with arange of registers. The instruction specifies the first register and the number of registers to be passed to the method."
     "7703 3A00 1300 -invoke-static/range v19..21,java.lang.Integer.parseInt:(Ljava/lang/String;)I // method@0034Invokes method@3A with 1 parameters (second byte of theinstruction=03). The parameter is stored in v19 (5th,6th bytes of theinstruction).",
   Entry.op "78" "invoke-interface/range \x7bvx..vy\x7d, methodtocall" .regRangeMethod
     "Invokes an interface method with a range of registers. The instruction specifies the first register and the number of registers to be passed to the method."
     "7840 2102 0100 invoke-interface v1..v4, mwfw.IReceivingProtocolAdapter.receivePackage:(ILjava/lang/String;Ljava/io/InputStream;)Z // method@0221Invokes method@221 interface method using parameters in v1..v4."]

/-- negations and conversions, `7b` to `8f` -/
def unaryOps : List Entry :=
  [Entry.op "7B" "neg-int vx,vy" .regReg
     "Calculates vx =- vy."
     "7B01 - neg-int v1,v0Calculates -v0 and stores the result in v1.",
   Entry.op "7C" "not-int vx,vy" .regReg
     ""
     "",
   Entry.op "7D" "neg-long vx,vy" .regReg
     "Calculates vx, vx+1 =- (vy, vy+1)"
     "7D02 - neg-long v2,v0Calculates -(v0,v1) and stores the result into (v2,v3)",
   Entry.op "7E" "not-long vx,vy" .regReg
     ""
     "",
   Entry.op "7F" "neg-float vx,vy" .regReg
     "Calculates vx =- vy"
     "7F01 - neg-float v1,v0Calculates -v0 and stores the result into v1.",
   Entry.op "80" "neg-double vx,vy" .regReg
     "Calculates vx, vx+1 =- (vy,vy+1)"
     "8002 - neg-double v2,v0Calculates -(v0,v1) and stores the result into (v2,v3)",
   Entry.op "81" "int-to-long vx, vy" .regReg
     "Converts the integer in vy into a long in vx, vx+1."
     "8106 - int-to-long v6, v0Converts an integer in v0 into a long in v6,v7.",
   Entry.op "82" "int-to-float vx, vy" .regReg
     "Converts the integer in vx into a float in vx."
     "8206 - int-to-float v6, v0Converts the integer in v0 into a float in v6.",
   Entry.op "83" "int-to-double vx, vy" .regReg
     "Converts the integer in vy into the double in vx, vx+1."
     "8306 - int-to-double v6, v0Converts the integer in v0 into a double in v6,v7",
   Entry.op "84" "long-to-int vx,vy" .regReg
     "Converts the long value in vy, vy+1 into an integer in vx."
     "8424 - long-to-int v4, v2Converts the long value in v2,v3 into an integer value in v4.",
   Entry.op "85" "long-to-float vx, vy" .regReg
     "Converts the long value in vy, vy+1 into a float in vx."
     "8510 - long-to-float v0, v1Convcerts the long value in v1,v2 into a float value in v0.",
   Entry.op "86" "long-to-double vx, vy" .regReg
     "Converts the long value in vy, vy+1 into a double value in vx, vx+1."
     "8610 - long-to-double v0, v1Converts the long value in v1,v2 into a double value in v0,v1.",
   Entry.op "87" "float-to-int vx, vy" .regReg
     "Converts the float value in vy into an integer value in vx."
     "8730 - float-to-int v0, v3Converts the float value in v3 into an integer value in v0.",
   Entry.op "88" "float-to-long vx,vy" .regReg
     "Converts the float value in vy into a long value in vx."
     "8830 - float-to-long v0, v3Converts the float value in v3 into a long value in v0,v1.",
   Entry.op "89" "float-to-double vx, vy" .regReg
     "Converts the float value in vyinto a double value in vx,vx+1."
     "8930 - float-to-double v0, v3Converts the float value in v3 into a double value in v0,v1.",
   Entry.op "8A" "double-to-int vx, vy" .regReg
     "Converts the double value in vy, vy+1 into an integer value in vx."
     "8A40 - double-to-int v0, v4Converts the double value in v4,v5 into an integer value in v0.",
   Entry.op "8B" "double-to-long vx, vy" .regReg
     "Converts the double value in vy, vy+1 into a long value in vx, vx+1."
     "8B40 - double-to-long v0, v4Converts the double value in v4,v5 into a long value in v0,v1.",
   Entry.op "8C" "double-to-float vx, vy" .regReg
     "Converts the double value in vy, vy+1 into a float value in vx."
     "8C40 - double-to-float v0, v4Converts the double value in v4,v5 into a float value in v0,v1.",
   Entry.op "8D" "int-to-byte vx,vy" .regReg
     "Converts the int value in vy to a byte value and stores it in vx."
     "8D00 - int-to-byte v0, v0Converts the integer in v0 into a byte and puts the byte value into v0.",
   Entry.op "8E" "int-to-char vx,vy" .regReg
     "Converts the int value in vy to a char value and stores it in vx."
     "8E33 - int-to-char v3, v3Converts the integer in v3 into a char and puts the char value into v3.",
   Entry.op "8F" "int-to-short vx,vy" .regReg
     "Converts the int value in vy to a short value and stores it in vx."
     "8F00 - int-to-short v0, v0Converts the integer in v0 into a short and puts the short value intov3."]

/-- arithmetic on three registers, `90` to `af` -/
def binaryOps : List Entry :=
  [Entry.op "90" "add-int vx,vy,vz" .regRegReg
     "Calculates vy+vz and puts the result into vx."
     "9000 0203 - add-int v0, v2, v3Adds v3 to v2 and puts the result into v0 <sup>4</sup>.",
   Entry.op "91" "sub-int vx,vy,vz" .regRegReg
     "Calculates vy-vz and puts the result into vx."
     "9100 0203 - sub-int v0, v2, v3Subtracts v3 from v2 and puts the result into v0.",
   Entry.op "92" "mul-int vx, vy, vz" .regRegReg
     "Multiplies vz with wy and puts the result int vx."
     "9200 0203 - mul-int v0,v2,v3Multiplies v2 with w3 and puts the result into v0",
   Entry.op "93" "div-int vx,vy,vz" .regRegReg
     "Divides vy with vz and puts the result into vx."
     "9303 0001 - div-int v3, v0, v1Divides v0 with v1 and puts the result into v3.",
   Entry.op "94" "rem-int vx,vy,vz" .regRegReg
     "Calculates vy % vz and puts the result into vx."
     "9400 0203 - rem-int v0, v2, v3Calculates v3 % v2 and puts the result into v0.",
   Entry.op "95" "and-int vx, vy, vz" .regRegReg
     "Calculates vy AND vz and puts the result into vx."
     "9503 0001 - and-int v3, v0, v1Calculates v0 AND v1 and puts the result into v3.",
   Entry.op "96" "or-int vx, vy, vz" .regRegReg
     "Calculates vy OR vz and puts the result into vx."
     "9603 0001 - or-int v3, v0, v1Calculates v0 OR v1 and puts the result into v3.",
   Entry.op "97" "xor-int vx, vy, vz" .regRegReg
     "Calculates vy XOR vz and puts the result into vx."
     "9703 0001 - xor-int v3, v0, v1Calculates v0 XOR v1 and puts the result into v3.",
   Entry.op "98" "shl-int vx, vy, vz" .regRegReg
     "Shift vy left by the positions specified by vz and store the result into vx."
     "9802 0001 - shl-int v2, v0, v1Shift v0 left by the positions specified by v1 and store the result inv2.",
   Entry.op "99" "shr-int vx, vy, vz" .regRegReg
     "Shift vy right by the positions specified by vz and store the result into vx."
     "9902 0001 - shr-int v2, v0, v1Shift v0 right by the positions specified by v1 and store the result inv2.",
   Entry.op "9A" "ushr-int vx, vy, vz" .regRegReg
     "Unsigned shift right>>> vy by the positions specified by vz and store the result into vx."
     "9A02 0001 - ushr-int v2, v0, v1Unsigned shift v0 right by the positions specified by v1 and store theresult in v2.",
   Entry.op "9B" "add-long vx, vy, vz" .regRegReg
     "Adds vy to vz and puts the result into vx."
     "9B00 0305 - add-long v0, v3, v5The long value in v3,v4 is added to the value in v5,v6 and the resultis stored in v0,v1.",
   Entry.op "9C" "sub-long vx,vy,vz" .regRegReg
     "Calculates vy - vz and puts the result into vx."
     "9C00 0305 - sub-long v0, v3, v5Subtracts the long value in v5,v6 from the long value in v3,v4 and putsthe result into v0,v1.",
   Entry.op "9D" "mul-long vx,vy,vz" .regRegReg
     "Calculates vy * vz and puts the result into vx."
     "9D00 0305 - mul-long v0, v3, v5Multiplies the long value in v5,v6 with the long value in v3,v4 andputsthe result into v0,v1.",
   Entry.op "9E" "div-long vx, vy, vz" .regRegReg
     "Calculates vy / vz and puts the result into vx."
     "9E06 0002 - div-long v6, v0, v2Divides the long value in v0,v1 with the long value in v2,v3 and pustthe result into v6,v7.",
   Entry.op "9F" "rem-long vx,vy,vz" .regRegReg
     "Calculates vy % vz and puts the result into vx."
     "9F06 0002 - rem-long v6, v0, v2Calculates v0,v1 % v2,v3 and putsthe result into v6,v7.",
   Entry.op "A0" "and-long vx, vy, vz" .regRegReg
     "Calculates the vy AND vz and puts the result into vx."
     "A006 0002 - and-long v6, v0, v2Calculates v0,v1 AND v2,v3 and puts the result into v6,v7.",
   Entry.op "A1" "or-long vx, vy, vz" .regRegReg
     "Calculates the vy OR vz and puts the result into vx."
     "A106 0002 - or-long v6, v0, v2Calculates v0,v1 OR v2,v3 and puts the result into v6,v7.",
   Entry.op "A2" "xor-long vx, vy, vz" .regRegReg
     "Calculates the vy XOR vz and puts the result into vx."
     "A206 0002 - xor-long v6, v0, v2Calculates v0,v1 XOR v2,v3 and puts the result into v6,v7.",
   Entry.op "A3" "shl-long vx, vy, vz" .regRegReg
     "Shifts left vy by vz positions and stores the result in vx."
     "A302 0004 - shl-long v2, v0, v4Shift v0,v1 by postions specified by v4 and puts the result into v2,v3.",
   Entry.op "A4" "shr-long vx,vy,vz" .regRegReg
     "Shifts right vy by vz positions and stores the result in vx."
     "A402 0004 - shr-long v2, v0, v4Shift v0,v1 by postions specified by v4 and puts the result into v2,v3.",
   Entry.op "A5" "ushr-long vx, vy, vz" .regRegReg
     "Unsigned shifts right vy by vz positions and stores the result in vx."
     "A502 0004 - ushr-long v2, v0, v4Unsigned shift v0,v1 by postions specified by v4 and puts the resultinto v2,v3.",
   Entry.op "A6" "add-float vx,vy,vz" .regRegReg
     "Adds vy to vz and puts the result into vx."
     "A600 0203 - add-float v0, v2, v3Adds the floating point numbers in v2 and v3 and puts the result intov0.",
   Entry.op "A7" "sub-float vx,vy,vz" .regRegReg
     "Calculates vy-vz and puts the result into vx."
     "A700 0203 - sub-float v0, v2, v3Calculates v2-v3 and puts the result intov0.",
   Entry.op "A8" "mul-float vx, vy, vz" .regRegReg
     "Multiplies vy with vz and puts the result into vx."
     "A803 0001 - mul-float v3, v0, v1Multiplies v0 with v1 and puts the result into v3.",
   Entry.op "A9" "div-float vx, vy, vz" .regRegReg
     "Calculates vy / vz and puts the result into vx."
     "A903 0001 - div-float v3, v0, v1Divides v0 with v1 and puts the result into v3.",
   Entry.op "AA" "rem-float vx,vy,vz" .regRegReg
     "Calculates vy % vz and puts the result into vx."
     "AA03 0001 - rem-float v3, v0, v1Calculates v0 % v1 and puts the result into v3.",
   Entry.op "AB" "add-double vx,vy,vz" .regRegReg
     "Adds vy to vz and puts the result into vx."
     "AB00 0305 - add-double v0, v3, v5Adds the double value in v5,v6 registers to the double value in v3,v4registers and places the result in v0,v1 registers.",
   Entry.op "AC" "sub-double vx,vy,vz" .regRegReg
     "Calculates vy - vz and puts the result into vx."
     "AC00 0305 - sub-double v0, v3, v5Subtracts the value in v5,v6 from the value in v3,v4 and puts theresult into v0,v1.",
   Entry.op "AD" "mul-double vx, vy, vz" .regRegReg
     "Multiplies vy with vz and puts the result into vx."
     "AD06 0002 - mul-double v6, v0, v2Multiplies the double value in v0,v1 with the double value in v2,v3 andputs the result into v6,v7.",
   Entry.op "AE" "div-double vx, vy, vz" .regRegReg
     "Calculates vy / vz and puts the result into vx."
     "AE06 0002 - div-double v6, v0, v2Divides the double value in v0,v1 with the double value in v2,v3 andputs the result into v6,v7.",
   Entry.op "AF" "rem-double vx,vy,vz" .regRegReg
     "Calculates vy % vz and puts the result into vx."
     "AF06 0002 - rem-double v6, v0, v2Calculates v0,v1 % v2,v3 andputs the result into v6,v7."]

/-- arithmetic on two registers, `b0` to `cf` -/
def binaryOps2addr : List Entry :=
  [Entry.op "B0" "add-int/2addr vx,vy" .regReg
     "Adds vy to vx."
     "B010 - add-int/2addr v0,v1Adds v1 to v0.",
   Entry.op "B1" "sub-int/2addr vx,vy" .regReg
     "Calculates vx-vy and puts the result into vx."
     "B140 - sub-int/2addr v0, v4Subtracts v4 from v0 and puts the result into v0.",
   Entry.op "B2" "mul-int/2addr vx,vy" .regReg
     "Multiplies vx with vy."
     "B210 - mul-int/2addr v0, v1Multiples v0 with v1 and puts the result into v0.",
   Entry.op "B3" "div-int/2addr vx,vy" .regReg
     "Divides vx with vy and puts the result into vx."
     "B310 - div-int/2addr v0, v1Divides v0 with v1 and puts the result into v0.",
   Entry.op "B4" "rem-int/2addr vx,vy" .regReg
     "Calculates vx % vy and puts the result into vx"
     "B410 - rem-int/2addr v0, v1 Calculates v0 % v1 and puts the result into v0.",
   Entry.op "B5" "and-int/2addr vx, vy" .regReg
     "Calculates vx AND vy and puts the result into vx."
     "B510 - and-int/2addr v0, v1Calculates v0 AND v1 and puts the result into v0.",
   Entry.op "B6" "or-int/2addr vx, vy" .regReg
     "Calculates vx OR vy and puts the result into vx."
     "B610 - or-int/2addr v0, v1Calculates v0 OR v1 and puts the result into v0.",
   Entry.op "B7" "xor-int/2addr vx, vy" .regReg
     "Calculates vx XOR vy and puts the result into vx."
     "B710 - xor-int/2addr v0, v1Calculates v0 XOR v1 and puts the result into v0.",
   Entry.op "B8" "shl-int/2addr vx, vy" .regReg
     "Shifts vx left by vy positions."
     "B810 - shl-int/2addr v0, v1Shift v0 left by v1 positions.",
   Entry.op "B9" "shr-int/2addr vx, vy" .regReg
     "Shifts vx right by vy positions."
     "B910 - shr-int/2addr v0, v1Shift v0 right by v1 positions.",
   Entry.op "BA" "ushr-int/2addr vx, vy" .regReg
     "Unsigned shift right>>> vx by the positions specified by vy."
     "BA10 - ushr-int/2addr v0, v1Unsigned shift v0 by the positions specified by v1.",
   Entry.op "BB" "add-long/2addr vx,vy" .regReg
     "Adds vy to vx."
     "BB20 - add-long/2addr v0, v2Adds the long value in v2,v3 registers to the long value in v0,v1registers.",
   Entry.op "BC" "sub-long/2addr vx,vy" .regReg
     "Calculates vx-vy and puts the result into vx."
     "BC70 - sub-long/2addr v0, v7Subtracts the long value in v7,v8 from the long value in v0,v1 and putsthe result into v0,v1.",
   Entry.op "BD" "mul-long/2addr vx,vy" .regReg
     "Calculates vx*vy and puts the result into vx."
     "BD70 - mul-long/2addr v0, v7Multiplies the long value in v7,v8 with the long value in v0,v1 andputsthe result into v0,v1.",
   Entry.op "BE" "div-long/2addr vx, vy" .regReg
     "Calculates vx/vy and puts the result into vx."
     "BE20 - div-long/2addr v0, v2Divides the long value in v0,v1 with the long value in v2,v3 and putsthe result into v0,v1",
   Entry.op "BF" "rem-long/2addr vx,vy" .regReg
     "Calculates vx % vy and puts the result into vx."
     "BF20 - rem-long/2addr v0, v2Calculates v0,v1 % v2,v3 and putsthe result into v0,v1",
   Entry.op "C0" "and-long/2addr vx, vy" .regReg
     "Calculates vx AND vy and puts the result into vx."
     "C020 - and-long/2addr v0, v2Calculates v0,v1 OR v2,v3 and puts the result into v0,v1.",
   Entry.op "C1" "or-long/2addr vx, vy" .regReg
     "Calculates vx OR vy and puts the result into vx."
     "C120 - or-long/2addr v0, v2Calculates v0,v1 OR v2,v3 and puts the result into v0,v1.",
   Entry.op "C2" "xor-long/2addr vx, vy" .regReg
     "Calculates vx XOR vy and puts the result into vx."
     "C220 - xor-long/2addr v0, v2Calculates v0,v1 XOR v2,v3 and puts the result into v0,v1.",
   Entry.op "C3" "shl-long/2addr vx, vy" .regReg
     "Shifts left the value in vx, vx+1 by the positions specified by vy and stores the result in vx, vx+1."
     "C320 - shl-long/2addr v0, v2Shifts left v0,v1 by the positions specified by v2.",
   Entry.op "C4" "shr-long/2addr vx, vy" .regReg
     "Shifts right the value invx, vx+1 by the positions specified by vy and stores the result invx, vx+1."
     "C420 - shr-long/2addr v0, v2Shifts right v0,v1 by the positions specified by v2.",
   Entry.op "C5" "ushr-long/2addr vx, vy" .regReg
     "Unsigned shifts right the valuein vx, vx+1 by the positions specified by vy and stores the result invx, vx+1."
     "C520 - ushr-long/2addr v0, v2Unsigned shifts right v0,v1 by the positions specified by v2.",
   Entry.op "C6" "add-float/2addr vx,vy" .regReg
     "Adds vy to vx."
     "C640 - add-float/2addr v0,v4Adds v4 to v0.",
   Entry.op "C7" "sub-float/2addr vx,vy" .regReg
     "Calculates vx - vy and stores the result in vx."
     "C740 - sub-float/2addr v0,v4Adds v4 to v0.",
   Entry.op "C8" "mul-float/2addr vx, vy" .regReg
     "Multiplies vx with vy."
     "C810 - mul-float/2addr v0, v1Multiplies v0 with v1.",
   Entry.op "C9" "div-float/2addr vx, vy" .regReg
     "Calculates vx / vy and puts the result into vx."
     "C910 - div-float/2addr v0, v1Divides v0 with v1 and puts the result into v0.",
   Entry.op "CA" "rem-float/2addr vx,vy" .regReg
     "Calculates vx / vy and puts the result into vx."
     "CA10 - rem-float/2addr v0, v1 Calculates v0 % v1 and puts the result into v0.",
   Entry.op "CB" "add-double/2addr vx, vy" .regReg
     "Adds vy to vx."
     "CB70 - add-double/2addr v0, v7Adds v7 to v0.",
   Entry.op "CC" "sub-double/2addr vx, vy" .regReg
     "Calculates vx - vy and puts the result into vx."
     "CC70 - sub-double/2addr v0, v7Subtracts the value in v7,v8 from the value in v0,v1 and puts theresult into v0,v1.",
   Entry.op "CD" "mul-double/2addr vx, vy" .regReg
     "Multiplies vx with vy."
     "CD20 - mul-double/2addr v0, v2Multiplies the double value in v0,v1 with the double value in v2,v3 andputs the result into v0,v1.",
   Entry.op "CE" "div-double/2addr vx, vy" .regReg
     "Calculates vx / vy and puts the result into vx."
     "CE20 - div-double/2addr v0, v2Divides the double value in v0,v1 with the double value in v2,v3 andputs the value into v0,v1.",
   Entry.op "CF" "rem-double/2addr vx,vy" .regReg
     "Calculates vx % vy and puts the result into vx."
     "CF20 - rem-double/2addr v0, v2 Calculates v0,v1 % v2,v3 andputs the value into v0,v1."]

/-- arithmetic with a literal, `d0` to `e2` -/
def literalOps : List Entry :=
  [Entry.op "D0" "add-int/lit16 vx,vy,lit16" .regRegLiteral
     "Adds vy to lit16 and stores the result into vx."
     "D001 D204 - add-int/lit16 v1,v0, #int 1234 // #04d2Adds v0 to literal 1234 and stores the result into v1.",
   Entry.op "D1" "rsub-int vx,vy,lit16" .regRegLiteral
     "Calculates lit16 - vy and stores the result into vx."
     "D101 D204 - rsub-int v1, v0, 0x4d2 Calculates 1234 - v0 and stores the result into v1.",
   Entry.op "D2" "mul-int/lit16 vx,vy,lit16" .regRegLiteral
     "Calculates vy * lit16 and stores the result into vx."
     "D201 D204 - mul-int/lit16 v1,v0, #int 1234 // #04d2Calculates v0 * literal 1234 and stores the result into v1.",
   Entry.op "D3" "div-int/lit16 vx,vy,lit16" .regRegLiteral
     "Calculates vy / lit16 and stores the result into vx."
     "D301 D204 - div-int/lit16 v1,v0, #int 1234 // #04d2Calculates v0 / literal 1234 and stores the result into v1.",
   Entry.op "D4" "rem-int/lit16 vx,vy,lit16" .regRegLiteral
     "Calculates vy % lit16 and stores the result into vx."
     "D401 D204 - rem-int/lit16 v1,v0, #int 1234 // #04d2Calculates v0 % literal 1234 and stores the result into v1.",
   Entry.op "D5" "and-int/lit16 vx,vy,lit16" .regRegLiteral
     "Calculates vy AND lit16 and stores the result into vx."
     "D501 D204 - and-int/lit16 v1,v0, #int 1234 // #04d2Calculates v0 AND literal 1234 and stores the result into v1.",
   Entry.op "D6" "or-int/lit16 vx,vy,lit16" .regRegLiteral
     "Calculates vy OR lit16 and stores the result into vx."
     "D601 D204 - or-int/lit16 v1,v0, #int 1234 // #04d2Calculates v0 OR literal 1234 and stores the result into v1.",
   Entry.op "D7" "xor-int/lit16 vx,vy,lit16" .regRegLiteral
     "Calculates vy XOR lit16 and stores the result into vx."
     "D701 D204 - xor-int/lit16 v1,v0, #int 1234 // #04d2Calculates v0 XOR literal 1234 and stores the result into v1.",
   Entry.op "D8" "add-int/lit8 vx,vy,lit8" .regRegLiteral
     "Adds vy to lit8 and stores the result into vx."
     "D800 0201 - add-int/lit8 v0,v2,#int1Adds literal 1 to v2 and stores the result into v0.",
   Entry.op "D9" "rsub-int/lit8 vx,vy,lit8" .regRegLiteral
     "Calculates lit8 - vy and stores the result into vx."
     "D900 0201 - rsub-int/lit8 v0, v2, 0x1 Calculates 1 - v2 and stores the result into v0.",
   Entry.op "DA" "mul-int/lit8 vx,vy,lit8" .regRegLiteral
     "Multiplies vy with lit8 8-bit literal constant and puts the result into vx."
     "DA00 0002 - mul-int/lit8 v0,v0,#int2Multiplies v0 with literal 2 and puts the result into v0.",
   Entry.op "DB" "div-int/lit8 vx,vy,lit8" .regRegLiteral
     "Calculates vy / lit8 and stores the result into vx."
     "DB00 0203 - mul-int/lit8 v0,v2,#int3Calculates v2/3 and stores the result into v0.",
   Entry.op "DC" "rem-int/lit8 vx,vy,lit8" .regRegLiteral
     "Calculates vy % lit8 and stores the result into vx."
     "DC00 0203 - rem-int/lit8 v0,v2,#int3Calculates v2 % 3 and stores the result into v0.",
   Entry.op "DD" "and-int/lit8 vx,vy,lit8" .regRegLiteral
     "Calculates vy AND lit8 andstores theresult into vx."
     "DD00 0203 - and-int/lit8 v0,v2,#int3Calculates v2 AND 3 and stores the result into v0.",
   Entry.op "DE" "or-int/lit8 vx, vy, lit8" .regRegLiteral
     "Calculates vy OR lit8 and puts the result into vx."
     "DE00 0203 - or-int/lit8 v0, v2,#int 3Calculates v2 OR literal 3 and puts the result into v0.",
   Entry.op "DF" "xor-int/lit8 vx, vy, lit8" .regRegLiteral
     "Calculates vy XOR lit8 and puts the result into vx."
     "DF000203 | 0008: xor-int/lit8 v0, v2, #int 3Calculates v2 XOR literal 3 and puts the result into v0.",
   Entry.op "E0" "shl-int/lit8 vx, vy, lit8" .regRegLiteral
     "Shift v0 left by the bit positions specified by the literal constant and put the result into vx."
     "E001 0001 - shl-int/lit8 v1, v0,#int 1Shift v0 left by 1 position and put the result into v1.",
   Entry.op "E1" "shr-int/lit8 vx, vy, lit8" .regRegLiteral
     "Shift v0 right by the bit positions specified by the literal constant and put the result into vx."
     "E101 0001 - shr-int/lit8 v1, v0,#int 1Shift v0 right by 1 position and put the result into v1.",
   Entry.op "E2" "ushr-int/lit8 vx, vy, lit8" .regRegLiteral
     "Unsigned right shift of v0>>> by the bit positions specified by the literal constant and put the result into vx."
     "E201 0001 - ushr-int/lit8 v1,v0, #int 1Unsigned shift v0 right by 1 position and put the result into v1."]

/-- instructions of optimized files and the calls through method handles, `e3` to `ff` -/
def odexOps : List Entry :=
  [Entry.odex "E3" "iget-volatile vx,vy,field_id" .regRegField
     "Reads an instance field into vx with volatile semantics."
     "E310 0400 - iget-volatile v0, v1, Lfoo;->bar:I",
   Entry.odex "E4" "iput-volatile vx,vy,field_id" .regRegField
     "Stores vx into an instance field with volatile semantics."
     "E410 0400 - iput-volatile v0, v1, Lfoo;->bar:I",
   Entry.odex "E5" "sget-volatile vx,field_id" .regField
     "Reads a static field into vx with volatile semantics."
     "E500 0400 - sget-volatile v0, Lfoo;->bar:I",
   Entry.odex "E6" "sput-volatile vx,field_id" .regField
     "Stores vx into a static field with volatile semantics."
     "E600 0400 - sput-volatile v0, Lfoo;->bar:I",
   Entry.odex "E7" "iget-object-volatile vx,vy,field_id" .regRegField
     "Reads an object reference instance field into vx with volatile semantics."
     "E710 0400 - iget-object-volatile v0, v1, Lfoo;->bar:Ljava/lang/Object;",
   Entry.odex "E8" "iget-wide-volatile vx,vy,field_id" .regRegField
     "Reads a long/double instance field into vx,vx+1 with volatile semantics."
     "E810 0400 - iget-wide-volatile v0, v2, Lfoo;->bar:J",
   Entry.odex "E9" "iput-wide-volatile vx,vy,field_id" .regRegField
     "Stores vx,vx+1 into a long/double instance field with volatile semantics."
     "E920 0400 - iput-wide-volatile v0, v2, Lfoo;->bar:J",
   Entry.odex "EA" "sget-wide-volatile vx,field_id" .regField
     "Reads a long/double static field into vx,vx+1 with volatile semantics."
     "EA00 0400 - sget-wide-volatile v0, Lfoo;->bar:J",
   Entry.odex "EB" "sput-wide-volatile vx,field_id" .regField
     "Stores vx,vx+1 into a long/double static field with volatile semantics."
     "EB00 0400 - sput-wide-volatile v0, Lfoo;->bar:J",
   Entry.odex "EE" "execute-inline \x7bparameters\x7d,inline_id" .regListIndex
     "Executes the inline method identified by inline ID."
     "EE20 0300 0100 - execute-inline v1, v0, inline #0003Executes inline method #3 using v1 as \"this\" and passing one parameterin v0.",
   Entry.odex "EF" "execute-inline/range \x7bvx..vy\x7d,inline_id" .regRangeIndex
     "Executes the inline method identified by inline ID, passing a range of registers."
     "EF03 0300 0000 - execute-inline/range \x7bv0 .. v2\x7d, inline@0x3",
   Entry.odex "F0" "invoke-direct-empty \x7bparameters\x7d,methodtocall" .regListMethod
     "Stands as a placeholder for pruned empty methods like Object.<init>. This acts as nop during normal execution."
     "F010 F608 0000 -invoke-direct-empty v0, Ljava/lang/Object;.<init>:()V //method@08f6Replacement for the empty method java/lang/Object;<init>.",
   Entry.odex "F2" "iget-quick vx,vy,offset" .regRegIndex
     "Gets the value stored at offset in vy instance's data area to vx."
     "F221 1000 - iget-quick v1, v2,[obj+0010]Gets the value at offset 0CH of the instance pointed by v2 and storesthe object reference in v1.",
   Entry.odex "F3" "iget-wide-quick vx,vy,offset" .regRegIndex
     "Gets the object reference value stored at offset in vy instance's data area to vx, vx+1."
     "F364 3001 - iget-wide-quick v4,v6, [obj+0130]Gets the value at offset 130H of the instance pointed by v6 and storesthe object reference in v4,v5.",
   Entry.odex "F4" "iget-object-quick vx,vy,offset" .regRegIndex
     "Gets the object reference value stored at offset in vy instance's data area to vx."
     "F431 0C00 - iget-object-quickv1, v3, [obj+000c]Gets the object reference value at offset 0CH of the instance pointedby v3 and stores the object reference in v1.",
   Entry.odex "F5" "iput-quick vx,vy,offset" .regRegIndex
     "Puts the value stored in vx to offset in vy instance's data area."
     "F521 1000 - iput-quick v1,v2, [obj+0010]Puts the object reference value in v1 to offset 10H of the instancepointed by v2.",
   Entry.odex "F6" "iput-wide-quick vx,vy,offset" .regRegIndex
     "Puts the value stored in vx, vx+1 to offset in vy instance's data area."
     "F652 7001 - iput-wide-quick v2,v5, [obj+0170]Puts the value in v2,v3 to offset 170H of the instance pointed by v5.",
   Entry.odex "F7" "iput-object-quick vx,vy,offset" .regRegIndex
     "Puts the object reference value stored in vx to offset in vy instance's data area to vx."
     "F701 4C00 - iput-object-quickv1, v0, [obj+004c]Puts the object reference value in v1 to offset 0CH of the instancepointed by v3.",
   Entry.odex "F8" "invoke-virtual-quick \x7bparameters\x7d,vtable_offset" .regListIndex
     "Invokes a virtual method using the vtable of the target object."
     "F820 B800 CF00 -invoke-virtual-quick v15, v12, vtable #00b8Invokes a virtual method. The target object instance is pointed by v15and vtable entry #B8 points to the method to be called. v12 is aparameter to the method call.",
   Entry.odex "F9" "invoke-virtual-quick/range \x7bvx..vy\x7d,vtable_offset" .regRangeIndex
     "Invokes a virtual method using the vtable of the target object."
     "F906 1800 0000 -invoke-virtual-quick/range v0..v5,vtable #0018Invokes a method using the vtable of theinstance pointed by v0. v1..v5 registers are parameters to the methodcall.",
   Entry.odex "FA" "invoke-super-quick \x7bparameters\x7d,vtable_offset" .regListIndex
     "Invokes a virtual method in the target object's immediate parent class using the vtable of that parent class."
     "FA40 8100 3254 -invoke-super-quick v2, v3, v4, v5, vtable #0081Invokes a method using the vtable of the immediate parent class ofinstance pointed by v2. v3, v4 and v5 registers are parameters to themethodcall.",
   Entry.op "FA" "invoke-polymorphic \x7bparameters\x7d, methodtocall, proto" .regListMethodProto
     "Invokes a signature polymorphic method such as MethodHandle.invoke with the given call-site prototype."
     "FA20 0400 0100 0500 - invoke-polymorphic \x7bv0, v1\x7d, Ljava/lang/invoke/MethodHandle;->invoke([Ljava/lang/Object;)Ljava/lang/Object;, (I)V",
   Entry.odex "FB" "invoke-super-quick/range \x7bvx..vy\x7d,vtable_offset" .regRangeIndex
     "Invokes a virtual method in the target object's immediate parent class using the vtable of that parent class."
     "F906 1B00 0000 -invoke-super-quick/range v0..v5, vtable #001bInvokes a method using the vtable of the immediate parent class ofinstance pointed by v0. v1..v5 registers are parameters to the methodcall.",
   Entry.op "FB" "invoke-polymorphic/range \x7bvx..vy\x7d, methodtocall, proto" .regRangeMethodProto
     "Invokes a signature polymorphic method with a range of registers."
     "FB03 0400 0000 0500 - invoke-polymorphic/range \x7bv0 .. v2\x7d, Ljava/lang/invoke/MethodHandle;->invoke([Ljava/lang/Object;)Ljava/lang/Object;, (II)V",
   Entry.op "FF" "const-method-type vx,proto" .regProto
     "Puts a reference to the method type identified by proto into vx."
     "FF00 0200 - const-method-type v0, (II)V"]

end Catalog
end Smali
